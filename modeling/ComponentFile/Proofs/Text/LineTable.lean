import ComponentFile.Proofs.Bisection
import ComponentFile.Proofs.Text.LineBreaks
import ComponentFile.Proofs.Text.Utf8

/-! The table of line starts. One pass over the bytes of the text gives the same table as its
characters, because no part of a longer character is taken for a line feed or a carriage return. The
starts ascend from zero and none of them is past the end. -/
namespace ComponentFile.Lines
open Utf8 (Bytes encode)

def EndsBreak (bytes : Bytes) (k : Nat) : Prop :=
  bytes[k]? = some 0x0A ∨ (bytes[k]? = some 0x0D ∧ bytes[k + 1]? ≠ some 0x0A)

instance (bytes : Bytes) : DecidablePred (EndsBreak bytes) := fun _ => instDecidableOr

def breakLasts (bytes : Bytes) : List Nat := (List.range bytes.length).filter (EndsBreak bytes)

section Bytes
variable {bytes : Bytes} {k : Nat}

theorem lastsExact : k ∈ breakLasts bytes ↔ EndsBreak bytes k := by
  unfold breakLasts
  rw [List.mem_filter, List.mem_range, decide_eq_true_iff, and_iff_right_iff_imp]
  rintro (here | ⟨here, _⟩)
  · exact (List.getElem?_eq_some_iff.mp here).1
  · exact (List.getElem?_eq_some_iff.mp here).1

theorem lastsAscending (bytes : Bytes) : (breakLasts bytes).Pairwise (· < ·) :=
  List.pairwise_lt_range.filter _

theorem lastsCons (b : UInt8) (rest : Bytes) :
    breakLasts (b :: rest) =
      (if b = 0x0A ∨ (b = 0x0D ∧ rest.head? ≠ some 0x0A) then [0] else []) ++
        (breakLasts rest).map (1 + ·) := by
  have first : EndsBreak (b :: rest) 0 ↔ b = 0x0A ∨ (b = 0x0D ∧ rest.head? ≠ some 0x0A) := by
    simp [EndsBreak, List.head?_eq_getElem?]
  have later : (fun k => decide (EndsBreak (b :: rest) k)) ∘ Nat.succ =
      fun k => decide (EndsBreak rest k) := by
    funext k
    simp [EndsBreak]
  have onward : Nat.succ = (1 + ·) := by
    funext k
    exact Nat.add_comm k 1
  unfold breakLasts
  rw [List.length_cons, List.range_succ_eq_map, List.filter_cons, List.filter_map, later, onward]
  simp only [first, decide_eq_true_eq]
  split <;> rfl

theorem lastsBehind {front : Bytes} (clean : ∀ b ∈ front, b ≠ 0x0A ∧ b ≠ 0x0D) (rest : Bytes) :
    breakLasts (front ++ rest) = (breakLasts rest).map (front.length + ·) := by
  induction front with
  | nil => simp
  | cons b more ih =>
    obtain ⟨⟨feed, back⟩, onward⟩ := List.forall_mem_cons.mp clean
    rw [List.cons_append, lastsCons, if_neg (by simp [feed, back]), ih onward, List.nil_append,
      List.map_map]
    congr 1
    funext k
    rw [Function.comp_apply, List.length_cons]
    omega

end Bytes

section Table

theorem encodeLength (t : Text) : (encode t).length = t.size := by
  induction t with
  | nil => rfl
  | cons c rest ih =>
    rw [Utf8.encodeCons, List.length_append, String.length_utf8EncodeChar, ih, Text.sizeCons]

theorem feedByte : String.utf8EncodeChar '\n' = [0x0A] := rfl

theorem backByte : String.utf8EncodeChar '\r' = [0x0D] := rfl

theorem otherBytes {c : Char} (feed : c ≠ '\n') (back : c ≠ '\r') :
    ∀ b ∈ String.utf8EncodeChar c, b ≠ 0x0A ∧ b ≠ 0x0D := by
  intro b member
  exact ⟨Utf8.characterClean (a := '\n') (by decide) feed b member,
    Utf8.characterClean (a := '\r') (by decide) back b member⟩

theorem encodeHead (t : Text) : (encode t).head? = some 0x0A ↔ t.head? = some '\n' := by
  cases t with
  | nil => simp [encode]
  | cons c rest =>
    rw [Utf8.encodeCons, List.head?_cons, Option.some_inj]
    by_cases feed : c = '\n'
    · rw [feed, feedByte]
      simp
    · have clean := Utf8.characterClean (a := '\n') (by decide) feed
      have written : String.utf8EncodeChar c ≠ [] := by
        rw [← List.length_pos_iff, String.length_utf8EncodeChar]
        exact c.utf8Size_pos
      rw [List.head?_append, List.head?_eq_some_head written, Option.some_or]
      constructor
      · intro first
        have member := List.head_mem written
        rw [Option.some_inj.mp first] at member
        exact absurd rfl (clean _ member)
      · exact fun same => absurd same feed

theorem startsMoved (pos n : Nat) (lasts : List Nat) :
    (lasts.map (n + ·)).map (fun k => pos + (k + 1)) = lasts.map fun k => pos + n + (k + 1) := by
  rw [List.map_map]
  congr 1
  funext k
  rw [Function.comp_apply]
  omega

theorem startsFromBytes (pos : Nat) (t : Text) :
    startsFrom pos t = (breakLasts (encode t)).map (fun k => pos + (k + 1)) := by
  induction t generalizing pos with
  | nil => rfl
  | cons c rest ih =>
    rw [startsFromCons, Utf8.encodeCons, ih, ih]
    by_cases feed : c = '\n'
    · rw [feed, feedByte, List.singleton_append, lastsCons, if_pos (.inl rfl), if_pos (.inl rfl),
        List.map_append, startsMoved]
      rfl
    · by_cases back : c = '\r'
      · rw [back, backByte, List.singleton_append, lastsCons, List.map_append, startsMoved]
        by_cases pair : rest.head? = some '\n'
        · rw [if_neg (by simp [pair]), if_neg (by simp [(encodeHead rest).mpr pair])]
          rfl
        · rw [if_pos (.inr ⟨rfl, pair⟩), if_pos (.inr ⟨rfl, mt (encodeHead rest).mp pair⟩)]
          rfl
      · rw [if_neg (by simp [feed, back]), lastsBehind (otherBytes feed back), startsMoved,
          String.length_utf8EncodeChar]

theorem startsBytes (t : Text) :
    (ofText t).starts = 0 :: (breakLasts (encode t)).map (· + 1) := by
  unfold ofText
  rw [startsFromBytes]
  simp only [Nat.zero_add]

theorem startsAscending (t : Text) : (ofText t).starts.Pairwise (· < ·) := by
  rw [startsBytes, List.pairwise_cons, List.pairwise_map]
  refine ⟨?_, (lastsAscending (encode t)).imp fun before => Nat.succ_lt_succ before⟩
  intro start member
  obtain ⟨k, _, rfl⟩ := List.mem_map.mp member
  exact Nat.succ_pos k

theorem startsWithin {t : Text} {start : Nat} (member : start ∈ (ofText t).starts) :
    start ≤ t.size := by
  rw [startsBytes] at member
  rcases List.mem_cons.mp member with rfl | later
  · exact Nat.zero_le _
  · obtain ⟨k, last, rfl⟩ := List.mem_map.mp later
    have inside := List.mem_range.mp (List.mem_filter.mp last).1
    rwa [encodeLength] at inside

theorem startsFronted (t : Text) (x : Nat) : Bisection.Fronted (· ≤ x) (ofText t).starts := by
  refine (startsAscending t).imp ?_
  intro a b before upTo
  simp only [decide_eq_true_eq] at upTo ⊢
  omega

theorem startsUpTo (t : Text) (x : Nat) :
    (ofText t).starts.countP (· ≤ x) = (ofText t).lineAt x + 1 := by
  unfold lineAt
  rw [startsBytes, List.countP_cons_of_pos (by simp), Nat.add_sub_cancel]

end Table

end ComponentFile.Lines
