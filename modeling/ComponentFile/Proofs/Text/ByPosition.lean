import ComponentFile.Word
import ComponentFile.Text.Span
import ComponentFile.Proofs.Text.LineTable
import ComponentFile.Proofs.Text.Slice
import ComponentFile.Proofs.Text.Utf8

/-! Text that is read by byte positions. There a cut may fall inside a character or past the end, a
range of bytes may end before it starts, and a span of machine words may stop before it starts; none
of them has an outcome then. What a byte says of its character it says only of ASCII. -/
namespace ComponentFile

def Word.add? (a b : Nat) : Option Nat := if a + b < Word.size32 then some (a + b) else none

def Span.forward? (start stop : Nat) : Option Span :=
  if start ≤ stop then some ⟨start, stop⟩ else none

def Span.inWords? (start stop : Nat) : Option Span :=
  forward? (start % Word.size32) (stop % Word.size32)

theorem Span.inWordsExact {start stop : Nat} (order : start ≤ stop) (short : stop < Word.size32) :
    inWords? start stop = some ⟨start, stop⟩ := by
  unfold inWords? forward?
  rw [Nat.mod_eq_of_lt short, Nat.mod_eq_of_lt (Nat.lt_of_le_of_lt order short), if_pos order]

namespace Text

def find? (needle t : Text) : Option Nat := (breakOn? needle t).map (·.1.size)

def findWhere? (p : Char → Bool) : Text → Option Nat
  | [] => none
  | c :: rest => if p c then some 0 else (findWhere? p rest).map (c.utf8Size + ·)

def between? (base : Nat) (t : Text) (start stop : Nat) : Option Text :=
  if base ≤ start ∧ base ≤ stop then slice? t (start - base) (stop - base) else none

section Slices
variable {base start middle stop : Nat} {t a b : Text}

theorem sliceFront (a b : Text) : slice? (a ++ b) 0 a.size = some a :=
  sliceExact.mpr ⟨[], b, rfl, rfl, Nat.zero_add _⟩

theorem sliceJoin (left : slice? t start middle = some a) (right : slice? t middle stop = some b) :
    slice? t start stop = some (a ++ b) := by
  obtain ⟨before, after, rfl, rfl, rfl⟩ := sliceExact.mp left
  obtain ⟨before', after', same, place, rfl⟩ := sliceExact.mp right
  obtain ⟨gap, cut, rest⟩ := cutOrder (a := before ++ a) (c := before')
    (same.trans (List.append_assoc _ _ _)) (Nat.le_of_eq ((sizeAppend before a).trans place.symm))
  have none : gap = [] := by
    refine sizeZero ?_
    have := congrArg size cut
    simp only [sizeAppend] at this
    omega
  subst none
  exact sliceExact.mpr ⟨before, after', by simp [rest], rfl, by simp [Nat.add_assoc]⟩

theorem betweenJoin (left : between? base t start middle = some a)
    (right : between? base t middle stop = some b) :
    between? base t start stop = some (a ++ b) := by
  unfold between? at left right ⊢
  split at left
  · split at right
    · rw [if_pos ⟨by omega, by omega⟩]
      exact sliceJoin left right
    · contradiction
  · contradiction

theorem betweenBehind (base : Nat) (before middle after : Text) :
    between? base (before ++ middle ++ after) (base + before.size)
      (base + before.size + middle.size) = some middle := by
  unfold between?
  rw [if_pos ⟨by omega, by omega⟩, Nat.add_sub_cancel_left, Nat.add_assoc, Nat.add_sub_cancel_left]
  exact sliceMiddle before middle after

end Slices

theorem findWhereExact (p : Char → Bool) (t : Text) : findWhere? p t =
    if (t.dropWhile (!p ·)).isEmpty then none else some (size (t.takeWhile (!p ·))) := by
  induction t with
  | nil => rfl
  | cons c rest ih =>
    rw [findWhere?, ih]
    by_cases here : p c = true
    · simp [here]
    · rw [if_neg here, List.dropWhile_cons_of_pos (by simp [here]),
        List.takeWhile_cons_of_pos (by simp [here])]
      split <;> rfl

theorem findWhereOr (p : Char → Bool) (t : Text) :
    (findWhere? p t).getD t.size = size (t.takeWhile (!p ·)) := by
  rw [findWhereExact]
  split
  · rename_i whole
    have cut := List.takeWhile_append_dropWhile (p := (!p ·)) (l := t)
    rw [List.isEmpty_iff.mp whole, List.append_nil] at cut
    rw [cut]
    rfl
  · rfl

end Text

namespace Utf8

def range? (bytes : Bytes) (start stop : Nat) : Option Bytes :=
  if start ≤ stop ∧ stop ≤ bytes.length then some ((bytes.drop start).take (stop - start)) else none

/- The character of ASCII that a byte stands for; what it is for another byte is none of ASCII. -/
def asciiOf (b : UInt8) : Char := Char.ofNat b.toNat

def IsAscii (c : Char) : Prop := c.toNat < 0x80

instance (c : Char) : Decidable (IsAscii c) := inferInstanceAs (Decidable (c.toNat < 0x80))

theorem asciiOfByte {n : Nat} (small : n < 256) : (asciiOf (.ofNat n)).toNat = n := by
  have valid : n.isValidChar := .inl (by omega)
  unfold asciiOf Char.ofNat
  rw [byteToNat small, dif_pos valid]
  rfl

theorem characterBytes (c : Char) :
    (IsAscii c ∧ ∃ b, String.utf8EncodeChar c = [b] ∧ asciiOf b = c) ∨
      (¬ IsAscii c ∧ String.utf8EncodeChar c ≠ [] ∧
        ∀ b ∈ String.utf8EncodeChar c, ¬ IsAscii (asciiOf b)) := by
  have written := characterWritten c
  have bounds := codeBounds c
  have foreign {n : Nat} (small : n < 256) (high : 0x80 ≤ n) : ¬ IsAscii (asciiOf (.ofNat n)) := by
    unfold IsAscii
    rw [asciiOfByte small]
    omega
  have own : IsAscii c → asciiOf (.ofNat c.toNat) = c := fun ascii =>
    Char.toNat_inj.mp (asciiOfByte (Nat.lt_trans ascii (by decide)))
  unfold IsAscii at own ⊢
  generalize c.toNat = v at bounds written own
  generalize String.utf8EncodeChar c = bytes at written
  cases written with
  | one most => exact .inl ⟨most, _, rfl, own most⟩
  | two least most =>
    refine .inr ⟨by omega, List.cons_ne_nil _ _, ?_⟩
    simp only [List.forall_mem_cons, List.not_mem_nil, false_implies, implies_true, and_true]
    exact ⟨foreign (by omega) (by omega), foreign (by omega) (by omega)⟩
  | three least most =>
    refine .inr ⟨by omega, List.cons_ne_nil _ _, ?_⟩
    simp only [List.forall_mem_cons, List.not_mem_nil, false_implies, implies_true, and_true]
    exact ⟨foreign (by omega) (by omega), foreign (by omega) (by omega),
      foreign (by omega) (by omega)⟩
  | four least =>
    refine .inr ⟨by omega, List.cons_ne_nil _ _, ?_⟩
    simp only [List.forall_mem_cons, List.not_mem_nil, false_implies, implies_true, and_true]
    exact ⟨foreign (by omega) (by omega), foreign (by omega) (by omega),
      foreign (by omega) (by omega), foreign (by omega) (by omega)⟩

theorem encodeAppend (a b : Text) : encode (a ++ b) = encode a ++ encode b := List.flatMap_append

theorem byteBehind (a b : Text) (i : Nat) : (encode (a ++ b))[a.size + i]? = (encode b)[i]? := by
  rw [encodeAppend, ← Lines.encodeLength, List.getElem?_append_right (Nat.le_add_right _ _),
    Nat.add_sub_cancel_left]

theorem rangeBehind (a b : Text) {stop : Nat} (inside : stop ≤ b.size) :
    range? (encode (a ++ b)) a.size (a.size + stop) = some ((encode b).take stop) := by
  have whole : (encode (a ++ b)).length = a.size + b.size := by
    rw [Lines.encodeLength, Text.sizeAppend]
  unfold range?
  rw [if_pos ⟨Nat.le_add_right _ _, by omega⟩, encodeAppend, ← Lines.encodeLength, List.drop_left,
    Nat.add_sub_cancel_left]

def OnlyAscii (p : Char → Bool) : Prop := ∀ c, ¬ IsAscii c → p c = false

theorem firstByte (c : Char) (t : Text) :
    ∃ b, (encode (c :: t))[0]? = some b ∧ ∀ p, OnlyAscii p → p (asciiOf b) = p c := by
  rw [encodeCons]
  rcases characterBytes c with ⟨_, b, bytes, same⟩ | ⟨foreign, nonempty, high⟩
  · rw [bytes]
    exact ⟨b, rfl, fun p _ => by rw [same]⟩
  · obtain ⟨b, rest, bytes⟩ := List.exists_cons_of_ne_nil nonempty
    rw [bytes] at high ⊢
    refine ⟨b, rfl, fun p only => ?_⟩
    rw [only c foreign, only _ (high b List.mem_cons_self)]

end Utf8
end ComponentFile
