import ComponentFile.Text.Lines
import ComponentFile.Proofs.Text.Slice

/-! Line breaks of a beginning of a text. Whether a carriage return ends a line by itself is seen
from the character after it, so the breaks of a part depend on what comes next, and on nothing else
outside of it. -/
namespace ComponentFile

def Text.lineBreaks (t : Text) : Nat :=
  t.count '\n' + t.count '\r' - (t.zip t.tail).count ('\r', '\n')

namespace Lines

/- The positions that directly follow a break in the part, which stands at `pos` before `next`. -/
def breakEnds (pos : Nat) (next : Text) : Text → List Nat
  | [] => []
  | c :: rest =>
      if c = '\n' ∨ (c = '\r' ∧ (rest ++ next).head? ≠ some '\n') then
        (pos + 1) :: breakEnds (pos + 1) next rest
      else breakEnds (pos + c.utf8Size) next rest

theorem startsFromCons (pos : Nat) (c : Char) (t : Text) :
    startsFrom pos (c :: t) =
      if c = '\n' ∨ (c = '\r' ∧ t.head? ≠ some '\n') then (pos + 1) :: startsFrom (pos + 1) t
      else startsFrom (pos + c.utf8Size) t := by
  by_cases pair : c = '\r' ∧ t.head? = some '\n'
  · obtain ⟨rfl, head⟩ := pair
    obtain ⟨rest, rfl⟩ : ∃ rest, t = '\n' :: rest := List.head?_eq_some_iff.mp head
    rw [if_neg (by simp)]
    have one : '\r'.utf8Size = 1 := by decide
    have last : startsFrom (pos + 1) ('\n' :: rest) = (pos + 2) :: startsFrom (pos + 2) rest := by
      rw [startsFrom] <;> simp
    rw [one, last, startsFrom]
  · rw [startsFrom]
    · by_cases feed : c = '\n'
      · simp [feed]
      · by_cases lone : c = '\r'
        · subst lone
          have : t.head? ≠ some '\n' := fun head => pair ⟨rfl, head⟩
          rw [if_pos (.inr rfl), if_pos (.inr ⟨rfl, this⟩)]
        · rw [if_neg (by simp [feed, lone]), if_neg (by simp [feed, lone])]
    · rintro rest rfl rfl
      exact pair ⟨rfl, rfl⟩

theorem breakSize {c : Char} {p : Prop} (ends : c = '\n' ∨ (c = '\r' ∧ p)) : c.utf8Size = 1 := by
  rcases ends with rfl | ⟨rfl, _⟩
  · decide
  · decide

theorem startsFromAppend (pos : Nat) (a b : Text) :
    startsFrom pos (a ++ b) = breakEnds pos b a ++ startsFrom (pos + Text.size a) b := by
  induction a generalizing pos with
  | nil => simp [breakEnds]
  | cons c rest ih =>
    rw [List.cons_append, startsFromCons, breakEnds]
    split
    · rename_i ends
      have one := breakSize ends
      rw [ih, Text.sizeCons, one, List.cons_append, Nat.add_assoc]
    · rw [ih, Text.sizeCons, Nat.add_assoc]

theorem startsAfter {pos n : Nat} {t : Text} (member : n ∈ startsFrom pos t) : pos < n := by
  induction t generalizing pos with
  | nil => simp [startsFrom] at member
  | cons c rest ih =>
    have := c.utf8Size_pos
    rw [startsFromCons] at member
    split at member
    · rcases List.mem_cons.mp member with rfl | later
      · omega
      · have := ih later
        omega
    · have := ih member
      omega

theorem breakEndsAppend (pos : Nat) (next a b : Text) :
    breakEnds pos next (a ++ b) =
      breakEnds pos (b ++ next) a ++ breakEnds (pos + Text.size a) next b := by
  induction a generalizing pos with
  | nil => simp [breakEnds]
  | cons c rest ih =>
    rw [List.cons_append, breakEnds, breakEnds, ← List.append_assoc]
    split
    · rename_i ends
      have one := breakSize ends
      rw [ih, Text.sizeCons, one, List.cons_append, Nat.add_assoc]
    · rw [ih, Text.sizeCons, Nat.add_assoc]

theorem breakEndsShift (base pos : Nat) (next t : Text) :
    breakEnds (base + pos) next t = (breakEnds pos next t).map (base + ·) := by
  induction t generalizing pos with
  | nil => rfl
  | cons c rest ih =>
    simp only [breakEnds, Nat.add_assoc, ih]
    split <;> rfl

theorem breakEndsNext {next other : Text} (pos : Nat) (t : Text) (same : next.head? = other.head?) :
    breakEnds pos next t = breakEnds pos other t := by
  induction t generalizing pos with
  | nil => rfl
  | cons c rest ih =>
    have head : (rest ++ next).head? = (rest ++ other).head? := by
      rw [List.head?_append, List.head?_append, same]
    simp only [breakEnds, head, ih]

theorem breakEndsCut {pos n : Nat} {next t : Text} (member : n ∈ breakEnds pos next t) :
    ∃ a b, t = a ++ b ∧ n = pos + Text.size a := by
  induction t generalizing pos with
  | nil => simp [breakEnds] at member
  | cons c rest ih =>
    rw [breakEnds] at member
    split at member
    · rename_i ends
      have one := breakSize ends
      rcases List.mem_cons.mp member with rfl | later
      · exact ⟨[c], rest, rfl, by simp [one]⟩
      · obtain ⟨a, b, rfl, rfl⟩ := ih later
        exact ⟨c :: a, b, rfl, by simp [one, Nat.add_assoc]⟩
    · obtain ⟨a, b, rfl, rfl⟩ := ih member
      exact ⟨c :: a, b, rfl, by simp [Nat.add_assoc]⟩

theorem breakEndsWithin {pos n : Nat} {next t : Text} (member : n ∈ breakEnds pos next t) :
    n ≤ pos + Text.size t := by
  obtain ⟨a, b, rfl, rfl⟩ := breakEndsCut member
  rw [Text.sizeAppend]
  omega

theorem breakEndsLength (pos : Nat) (next t : Text) : (breakEnds pos next t).length ≤ Text.size t := by
  induction t generalizing pos with
  | nil => simp [breakEnds]
  | cons c rest ih =>
    have := c.utf8Size_pos
    have := ih (pos + 1)
    have := ih (pos + c.utf8Size)
    rw [breakEnds, Text.sizeCons]
    split
    · simp only [List.length_cons]; omega
    · omega

theorem breakEndsPairs {next t : Text} (pos : Nat)
    (apart : ¬ (t.getLast? = some '\r' ∧ next.head? = some '\n')) :
    (breakEnds pos next t).length + (t.zip t.tail).count ('\r', '\n') =
      t.count '\n' + t.count '\r' := by
  induction t generalizing pos with
  | nil => rfl
  | cons c rest ih =>
    cases rest with
    | nil =>
      by_cases feed : c = '\n'
      · simp [breakEnds, feed]
      · by_cases lone : c = '\r'
        · have : next.head? ≠ some '\n' := fun head => apart ⟨by simp [lone], head⟩
          simp [breakEnds, lone, this]
        · simp [breakEnds, feed, lone]
    | cons d more =>
      have onward (pos : Nat) := ih pos (by simpa using apart)
      simp only [List.tail_cons] at onward
      rw [breakEnds, List.tail_cons, List.zip_cons_cons, List.count_cons, List.count_cons (a := '\n'),
        List.count_cons (a := '\r')]
      by_cases feed : c = '\n'
      · have := onward (pos + 1)
        simp [feed]
        omega
      · by_cases lone : c = '\r'
        · by_cases pair : d = '\n'
          · have := onward (pos + c.utf8Size)
            simp [lone, pair] at this ⊢
            omega
          · have := onward (pos + 1)
            simp [lone, pair] at this ⊢
            omega
        · have := onward (pos + c.utf8Size)
          simp [feed, lone]
          omega

theorem breakEndsCount {next t : Text} (pos : Nat)
    (apart : ¬ (t.getLast? = some '\r' ∧ next.head? = some '\n')) :
    (breakEnds pos next t).length = t.lineBreaks := by
  have := breakEndsPairs pos apart
  unfold Text.lineBreaks
  omega

theorem lineAtCut (a b : Text) : (ofText (a ++ b)).lineAt (Text.size a) = (breakEnds 0 b a).length := by
  have before : (breakEnds 0 b a).countP (· ≤ Text.size a) = (breakEnds 0 b a).length := by
    rw [List.countP_eq_length]
    intro n member
    simpa using breakEndsWithin member
  have after : (startsFrom (Text.size a) b).countP (· ≤ Text.size a) = 0 := by
    rw [List.countP_eq_zero]
    intro n member
    have := startsAfter member
    simpa using this
  unfold lineAt ofText
  rw [List.countP_cons, startsFromAppend, List.countP_append, Nat.zero_add, before, after]
  simp

theorem lineAtBreaks {a b : Text} (apart : ¬ (a.getLast? = some '\r' ∧ b.head? = some '\n')) :
    (ofText (a ++ b)).lineAt (Text.size a) = a.lineBreaks := by
  rw [lineAtCut, breakEndsCount 0 apart]

theorem startsFromBreaks (pos : Nat) (t : Text) : startsFrom pos t = breakEnds pos [] t := by
  have whole := startsFromAppend pos t []
  simpa [startsFrom] using whole

theorem lineAtBehind {a b : Text} (offset : Nat)
    (apart : ¬ (a.getLast? = some '\r' ∧ b.head? = some '\n')) :
    (ofText (a ++ b)).lineAt (Text.size a + offset) =
      a.lineBreaks + (ofText b).lineAt offset := by
  have before : (breakEnds 0 b a).countP (· ≤ Text.size a + offset) = (breakEnds 0 b a).length := by
    rw [List.countP_eq_length]
    intro n member
    have := breakEndsWithin member
    simp only [decide_eq_true_eq]
    omega
  have moved : startsFrom (Text.size a) b = (startsFrom 0 b).map (Text.size a + ·) := by
    rw [startsFromBreaks, startsFromBreaks, ← breakEndsShift, Nat.add_zero]
  have after : (startsFrom (Text.size a) b).countP (· ≤ Text.size a + offset) =
      (startsFrom 0 b).countP (· ≤ offset) := by
    rw [moved, List.countP_map]
    congr 1
    funext n
    simp
  unfold lineAt ofText
  rw [List.countP_cons, List.countP_cons, startsFromAppend, List.countP_append, Nat.zero_add, before,
    after, breakEndsCount 0 apart]
  simp

theorem startAtCut (a b : Text) :
    (ofText (a ++ b)).start? (breakEnds 0 b a).length =
      some ((breakEnds 0 b a).getLast?.getD 0) := by
  unfold start? ofText
  rw [startsFromAppend]
  rcases List.eq_nil_or_concat (breakEnds 0 b a) with none | ⟨front, last, some⟩
  · simp [none]
  · simp [some]

theorem lineCut (a b : Text) :
    ∃ lead line, a = lead ++ line ∧ Text.size lead = (breakEnds 0 b a).getLast?.getD 0 := by
  cases last : (breakEnds 0 b a).getLast? with
  | none => exact ⟨[], a, rfl, rfl⟩
  | some n =>
    obtain ⟨lead, line, same, place⟩ := breakEndsCut (List.mem_of_getLast? last)
    exact ⟨lead, line, same, by simp [place]⟩

end Lines

end ComponentFile
