import Mathlib.Order.Monotone.Basic
import ComponentFile.Text.Span
import ComponentFile.Proofs.Text.LineTable

/-! Line numbers as numbers of line breaks. The breaks of the bytes are said by themselves, as places
where one stands; the line of a position is the number of those that are over at it. -/
namespace ComponentFile
open Utf8 (Bytes encode)

inductive Utf8.BreakAt (bytes : Bytes) : Span → Prop where
  | pair {k : Nat} (back : bytes[k]? = some 0x0D) (feed : bytes[k + 1]? = some 0x0A) :
      BreakAt bytes ⟨k, k + 2⟩
  | feed {k : Nat} (here : bytes[k]? = some 0x0A) (alone : ∀ j, j + 1 = k → bytes[j]? ≠ some 0x0D) :
      BreakAt bytes ⟨k, k + 1⟩
  | back {k : Nat} (here : bytes[k]? = some 0x0D) (alone : bytes[k + 1]? ≠ some 0x0A) :
      BreakAt bytes ⟨k, k + 1⟩

namespace Lines

def breakOver (bytes : Bytes) : Nat → Span
  | 0 => ⟨0, 1⟩
  | k + 1 =>
      if bytes[k]? = some 0x0D ∧ bytes[k + 1]? = some 0x0A then ⟨k, k + 2⟩ else ⟨k + 1, k + 2⟩

section Spans
variable {bytes : Bytes} {k : Nat}

theorem breakOverStop (bytes : Bytes) (k : Nat) : (breakOver bytes k).stop = k + 1 := by
  unfold breakOver
  split
  · rfl
  · split <;> rfl

theorem breakOverAt (ends : EndsBreak bytes k) : Utf8.BreakAt bytes (breakOver bytes k) := by
  cases k with
  | zero =>
    rcases ends with here | ⟨here, alone⟩
    · exact .feed here (by omega)
    · exact .back here alone
  | succ k =>
    rw [breakOver]
    split
    · rename_i pair
      exact .pair pair.1 pair.2
    · rename_i apart
      rcases ends with here | ⟨here, alone⟩
      · refine .feed here ?_
        rintro j same back
        cases same
        exact apart ⟨back, here⟩
      · exact .back here alone

theorem breakAtLast {s : Span} (stands : Utf8.BreakAt bytes s) :
    ∃ k, EndsBreak bytes k ∧ breakOver bytes k = s := by
  cases stands with
  | @pair k back feed => exact ⟨k + 1, .inl feed, if_pos ⟨back, feed⟩⟩
  | @feed k here alone =>
    refine ⟨k, .inl here, ?_⟩
    cases k with
    | zero => rfl
    | succ k => exact if_neg fun pair => alone k rfl pair.1
  | @back k here alone =>
    refine ⟨k, .inr ⟨here, alone⟩, ?_⟩
    cases k with
    | zero => rfl
    | succ k =>
      refine if_neg fun pair => ?_
      rw [here] at pair
      exact absurd pair.2 (by decide)

def breakSpans (bytes : Bytes) : List Span := (breakLasts bytes).map (breakOver bytes)

theorem breakSpansExact {s : Span} : s ∈ breakSpans bytes ↔ Utf8.BreakAt bytes s := by
  unfold breakSpans
  rw [List.mem_map]
  constructor
  · rintro ⟨k, member, rfl⟩
    exact breakOverAt (lastsExact.mp member)
  · intro stands
    obtain ⟨k, ends, same⟩ := breakAtLast stands
    exact ⟨k, lastsExact.mpr ends, same⟩

theorem breakSpansOnce (bytes : Bytes) : (breakSpans bytes).Nodup := by
  refine List.pairwise_map.mpr ((lastsAscending bytes).imp ?_)
  intro j k before same
  have := congrArg Span.stop same
  rw [breakOverStop, breakOverStop] at this
  omega

end Spans

section Numbers

theorem lineAtSpans (t : Text) (x : Nat) :
    (ofText t).lineAt x = (breakSpans (encode t)).countP (·.stop ≤ x) := by
  have table := startsUpTo t x
  rw [startsBytes, List.countP_cons_of_pos (by simp), List.countP_map] at table
  unfold breakSpans
  rw [List.countP_map, ← Nat.succ_inj.mp table]
  congr 1
  funext k
  rw [Function.comp_apply, Function.comp_apply, breakOverStop]

theorem lineAtMono (t : Text) : Monotone (ofText t).lineAt := by
  intro x y order
  rw [lineAtSpans, lineAtSpans]
  refine List.countP_mono_left fun s _ earlier => ?_
  simp only [decide_eq_true_eq] at earlier ⊢
  omega

theorem lineAtEnd {t : Text} {x : Nat} (past : t.size ≤ x) :
    (ofText t).lineAt x = (ofText t).breaks := by
  have every : (ofText t).starts.countP (· ≤ x) = (ofText t).starts.length := by
    rw [List.countP_eq_length]
    intro start member
    have := startsWithin member
    simp only [decide_eq_true_eq]
    omega
  unfold lineAt breaks count
  rw [every]

theorem lineAtBelow (t : Text) (x : Nat) : (ofText t).lineAt x ≤ t.size := by
  rw [lineAtSpans]
  calc (breakSpans (encode t)).countP (·.stop ≤ x)
      ≤ (breakSpans (encode t)).length := List.countP_le_length
    _ = (breakLasts (encode t)).length := List.length_map _
    _ ≤ (List.range (encode t).length).length := List.length_filter_le _ _
    _ = t.size := by rw [List.length_range, encodeLength]

end Numbers

/- The line of a position is the number of breaks, a pair counted once, that end at or before it. So
lines ascend with positions up to the last one, their numbers fit where the size of the text does, and
halving the table finds the same line. Of a number that need not be a position, those that are
negative or past the end are told apart, and the others have their line. -/
theorem lineNumbersCount (t : Text) :
    (∃ spans : List Span, spans.Nodup ∧ (∀ s, s ∈ spans ↔ Utf8.BreakAt (encode t) s) ∧
      (∀ x, (ofText t).lineAt x = spans.countP (·.stop ≤ x)) ∧ (ofText t).breaks = spans.length) ∧
    Monotone (ofText t).lineAt ∧
    (∀ x, (encode t).length ≤ x → (ofText t).lineAt x = (ofText t).breaks) ∧
    (∀ x, (ofText t).lineAt x ≤ (encode t).length ∧
      Bisection.point (· ≤ x) (ofText t).starts = (ofText t).lineAt x + 1) ∧
    (∀ i : Int, i < 0 → (ofText t).lineWithin i = .error (.negative i)) ∧
    (∀ i : Int, (encode t).length < i →
      (ofText t).lineWithin i = .error (.outOfBounds i (encode t).length)) ∧
    ∀ x : Nat, x ≤ (encode t).length → (ofText t).lineWithin x = .ok ((ofText t).lineAt x) := by
  rw [encodeLength]
  have total : (ofText t).breaks = (breakSpans (encode t)).length := by
    unfold breaks count breakSpans
    rw [startsBytes, List.length_cons, List.length_map, List.length_map, Nat.add_sub_cancel]
  refine ⟨⟨breakSpans (encode t), breakSpansOnce _, fun s => breakSpansExact, lineAtSpans t, total⟩,
    lineAtMono t, fun x => lineAtEnd, fun x => ⟨lineAtBelow t x, ?_⟩, ?_, ?_, ?_⟩
  · rw [Bisection.pointExact (startsFronted t x), startsUpTo]
  · intro i negative
    exact if_pos negative
  · intro i past
    unfold lineWithin
    rw [if_neg (by omega)]
    exact if_pos past
  · intro x inside
    unfold lineWithin
    have within : ¬ ((ofText t).size : Int) < x := not_lt.mpr (Int.ofNat_le.mpr inside)
    rw [if_neg (by omega), if_neg within, Int.toNat_natCast]

example : (ofText "a\r\r\né\r").starts = [0, 2, 4, 7] := by decide

end Lines
end ComponentFile
