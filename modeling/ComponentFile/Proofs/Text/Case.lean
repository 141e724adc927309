import ComponentFile.Text.Basic

/-! Lower case of ASCII letters. Only the letters from A to Z move, and they move behind Z. -/
namespace ComponentFile.Text

def IsUpper (c : Char) : Prop := c.val ≥ 'A'.val ∧ c.val ≤ 'Z'.val

theorem upperBounds {c : Char} (upper : IsUpper c) : 65 ≤ c.val.toNat ∧ c.val.toNat ≤ 90 :=
  ⟨UInt32.le_iff_toNat_le.mp upper.1, UInt32.le_iff_toNat_le.mp upper.2⟩

theorem lowerOfUpper {c : Char} (upper : IsUpper c) : c.toLower.val.toNat = c.val.toNat + 32 := by
  have lowered : c.toLower.val = c.val + ('a'.val - 'A'.val) :=
    congrArg Char.val (dif_pos upper : c.toLower = _)
  have bounds := upperBounds upper
  have gap : ('a'.val - 'A'.val).toNat = 32 := rfl
  rw [lowered, UInt32.toNat_add]
  omega

theorem lowerOfOther {c : Char} (other : ¬ IsUpper c) : c.toLower = c := dif_neg other

theorem lowerOnce (c : Char) : c.toLower.toLower = c.toLower := by
  by_cases upper : IsUpper c
  · have lowered := lowerOfUpper upper
    have bounds := upperBounds upper
    refine lowerOfOther fun again => ?_
    have := upperBounds again
    omega
  · rw [lowerOfOther upper, lowerOfOther upper]

theorem alphaLower (c : Char) : c.toLower.isAlpha = c.isAlpha := by
  by_cases upper : IsUpper c
  · have lowered := lowerOfUpper upper
    have bounds := upperBounds upper
    have first : 'a'.val.toNat = 97 := rfl
    have last : 'z'.val.toNat = 122 := rfl
    have small : c.toLower.val ≥ 'a'.val ∧ c.toLower.val ≤ 'z'.val := by
      rw [ge_iff_le, UInt32.le_iff_toNat_le, UInt32.le_iff_toNat_le]
      omega
    have here : c.isAlpha = true := Bool.or_eq_true_iff.mpr (.inl (decide_eq_true upper))
    have there : c.toLower.isAlpha = true := Bool.or_eq_true_iff.mpr
      (.inr (Bool.and_eq_true_iff.mpr ⟨decide_eq_true small.1, decide_eq_true small.2⟩))
    rw [here, there]
  · rw [lowerOfOther upper]

theorem lowerTwice (t : Text) : lower (lower t) = lower t := by
  unfold lower
  rw [List.map_map]
  exact List.map_congr_left fun c _ => lowerOnce c

end ComponentFile.Text
