import ComponentFile.Mapping.Digits

/-! Numbers written as digits are read back, whatever follows them. Reading keeps the bits of the
digits so far; what is left of the word is scaled by the place of its next digit. -/
namespace ComponentFile.Base64

theorem digitFound {n : Nat} (below : n < 64) : value? (digit n) = some n := by
  have every : ∀ i : Fin 64, value? (digit i) = some i.val := by decide +kernel
  exact every ⟨n, below⟩

end ComponentFile.Base64

namespace ComponentFile.Digits

theorem ofWordShort {w : Nat} (short : w < 32) : ofWord w = [Base64.digit w] := by
  rw [ofWord, if_pos short]

theorem ofWordLong {w : Nat} (long : ¬ w < 32) :
    ofWord w = Base64.digit (w % 32 + 32) :: ofWord (w / 32) := by
  rw [ofWord, if_neg long]

theorem shiftParts (w s : Nat) : w <<< s = (w % 32) <<< s + (w / 32) <<< (s + 5) := by
  rw [Nat.add_comm s 5, Nat.shiftLeft_add, Nat.shiftLeft_eq _ s, Nat.shiftLeft_eq _ s,
    Nat.shiftLeft_eq _ s, ← Nat.add_mul]
  congr 1
  omega

theorem shiftInside {w s : Nat} (some : 0 < w) (below : w <<< s < Word.size64) : s < 64 := by
  rw [Nat.shiftLeft_eq] at below
  exact (Nat.pow_lt_pow_iff_right Nat.one_lt_two).mp
    (Nat.lt_of_le_of_lt (Nat.le_mul_of_pos_left _ some) below)

theorem wordRead (w : Nat) (before : Option Pending) {p : Pending} (held : before.getD ⟨0, 0⟩ = p)
    (fits : p.bits + w <<< p.shift < Word.size64) (place : p.shift < 64) (rest : Text) :
    decodeFrom before (ofWord w ++ rest) =
      (decodeFrom none rest).map (signed (p.bits + w <<< p.shift) :: ·) := by
  induction w using Nat.strongRecOn generalizing before p with
  | ind w ih =>
    have room : ¬ 64 ≤ p.shift := by omega
    by_cases short : w < 32
    · have whole : w <<< p.shift % Word.size64 = w <<< p.shift :=
        Nat.mod_eq_of_lt (Nat.lt_of_le_of_lt (Nat.le_add_left _ _) fits)
      have last : ¬ 32 ≤ w := by omega
      rw [ofWordShort short, List.singleton_append, decodeFrom]
      simp only [Base64.digitFound (show w < 64 by omega), held, if_neg room, if_neg last,
        Nat.mod_eq_of_lt short, whole]
    · have parts := shiftParts w p.shift
      have low : (w % 32 + 32) % 32 = w % 32 := by omega
      have left : p.bits + (w % 32) <<< p.shift + (w / 32) <<< (p.shift + 5) < Word.size64 := by
        rw [Nat.add_assoc, ← parts]
        exact fits
      have begun : p.bits + (w % 32) <<< p.shift < Word.size64 :=
        Nat.lt_of_le_of_lt (Nat.le_add_right _ _) left
      have whole : (w % 32) <<< p.shift % Word.size64 = (w % 32) <<< p.shift :=
        Nat.mod_eq_of_lt (Nat.lt_of_le_of_lt (Nat.le_add_left _ _) begun)
      -- what is left is positive, so the place of its digits is still inside of the word
      have further : p.shift + 5 < 64 :=
        shiftInside (show 0 < w / 32 by omega) (Nat.lt_of_le_of_lt (Nat.le_add_left _ _) left)
      rw [ofWordLong short, List.cons_append, decodeFrom]
      simp only [Base64.digitFound (show w % 32 + 32 < 64 by omega), held, if_neg room, low, whole,
        if_pos (show 32 ≤ w % 32 + 32 by omega)]
      have onward := @ih (w / 32) (by omega)
        (some ⟨p.bits + (w % 32) <<< p.shift, p.shift + 5⟩) ⟨_, _⟩ rfl left further
      rw [onward, parts, Nat.add_assoc]

theorem toWordBelow (i : Int) : toWord i < Word.size64 := by
  unfold toWord Word.size64
  split <;> omega

theorem signedToWord (i : Int) (fits : i.natAbs * 2 < Word.size64) : signed (toWord i) = i := by
  unfold Word.size64 at fits
  unfold signed toWord Word.size64
  split <;> split <;> omega

theorem encodeRead (i : Int) (fits : i.natAbs * 2 < Word.size64) (rest : Text) :
    decodeFrom none (encode i ++ rest) = (decodeFrom none rest).map (i :: ·) := by
  have start := wordRead (toWord i) none rfl (by simpa using toWordBelow i) (by decide) rest
  simp only [Option.getD_none, Nat.zero_add, Nat.shiftLeft_zero] at start
  rw [signedToWord i fits] at start
  exact start

theorem ofWordDigits (w : Nat) : ∀ c ∈ ofWord w, ∃ n < 64, c = Base64.digit n := by
  induction w using Nat.strongRecOn with
  | ind w ih =>
    intro c member
    by_cases short : w < 32
    · rw [ofWordShort short] at member
      exact ⟨w, by omega, List.mem_singleton.mp member⟩
    · rw [ofWordLong short] at member
      rcases List.mem_cons.mp member with rfl | later
      · exact ⟨w % 32 + 32, by omega, rfl⟩
      · exact ih (w / 32) (by omega) c later

theorem encodeDigits (i : Int) : ∀ c ∈ encode i, ∃ n < 64, c = Base64.digit n :=
  ofWordDigits (toWord i)

theorem encodeNonempty (i : Int) : encode i ≠ [] := by
  unfold encode
  rw [ofWord]
  split <;> simp

theorem encodeParts (i : Int) {c : Char} (member : c ∈ encode i) : c ≠ ',' ∧ c ≠ ';' := by
  have every : ∀ n : Fin 64, Base64.digit n ≠ ',' ∧ Base64.digit n ≠ ';' := by decide +kernel
  obtain ⟨n, below, rfl⟩ := encodeDigits i c member
  exact every ⟨n, below⟩

end ComponentFile.Digits
