import ComponentFile.Proofs.Text.LineBreaks

/-! The place of a boundary found by counting, one character after the other. It is the one that the
line starts give, and a later boundary is at a later place. -/
namespace ComponentFile.Position

/- The place behind `c`, which stands at `p` and has `next` behind it: a line feed ends the line, and
so does a carriage return without one; of any other character the UTF-16 units are counted. -/
def past (p : Position) (c : Char) (next : Option Char) : Position :=
  if c = '\n' ∨ (c = '\r' ∧ next ≠ some '\n') then ⟨p.line + 1, 0⟩
  else ⟨p.line, p.column + Text.units [c]⟩

def walk (next : Text) (p : Position) : Text → Position
  | [] => p
  | c :: rest => walk next (p.past c (rest ++ next).head?) rest

theorem walkAppend (p : Position) (next a b : Text) :
    walk next p (a ++ b) = walk next (walk (b ++ next) p a) b := by
  induction a generalizing p with
  | nil => rfl
  | cons c rest ih => simp only [List.cons_append, walk, List.append_assoc, ih]

theorem beforeExact {p q : Position} :
    p.before q = true ↔ p.line < q.line ∨ (p.line = q.line ∧ p.column < q.column) := by
  simp [before]

theorem atMostExact {p q : Position} :
    p.atMost q = true ↔ p.line < q.line ∨ (p.line = q.line ∧ p.column ≤ q.column) := by
  simp [atMost]

theorem beforeAtMost {p q : Position} (h : p.before q = true) : p.atMost q = true := by
  rw [beforeExact] at h
  rw [atMostExact]
  omega

theorem beforeNotAtMost {p q : Position} : q.before p = true ↔ ¬ p.atMost q = true := by
  rw [beforeExact, atMostExact]
  omega

theorem unitsPositive {t : Text} (nonempty : t ≠ []) : 0 < t.units := by
  cases t with
  | nil => contradiction
  | cons c rest =>
    simp only [Text.units]
    split <;> omega

theorem walkMoves (p : Position) (next t : Text) :
    p.line < (walk next p t).line ∨
      ((walk next p t).line = p.line ∧ (walk next p t).column = p.column + t.units) := by
  induction t generalizing p with
  | nil => exact .inr ⟨rfl, rfl⟩
  | cons c rest ih =>
    rw [walk]
    by_cases ends : c = '\n' ∨ (c = '\r' ∧ (rest ++ next).head? ≠ some '\n')
    · rw [past, if_pos ends]
      have := ih ⟨p.line + 1, 0⟩
      simp only at this
      omega
    · rw [past, if_neg ends]
      have := ih ⟨p.line, p.column + Text.units [c]⟩
      simp only [Text.units] at this ⊢
      omega

theorem walkBreaks (p : Position) (pos : Nat) (next t : Text) :
    (walk next p t).line = p.line + (Lines.breakEnds pos next t).length ∧
      (Lines.breakEnds pos next t = [] → (walk next p t).column = p.column + t.units) ∧
      ∀ last ∈ (Lines.breakEnds pos next t).getLast?, ∃ lead line, t = lead ++ line ∧
        pos + Text.size lead = last ∧ (walk next p t).column = line.units := by
  induction t generalizing p pos with
  | nil => simp [walk, Lines.breakEnds, Text.units]
  | cons c rest ih =>
    rw [walk, Lines.breakEnds]
    by_cases ends : c = '\n' ∨ (c = '\r' ∧ (rest ++ next).head? ≠ some '\n')
    · obtain ⟨lines, none, some⟩ := ih ⟨p.line + 1, 0⟩ (pos + 1)
      have one := Lines.breakSize ends
      rw [past, if_pos ends, if_pos ends]
      refine ⟨?_, by simp, ?_⟩
      · rw [lines, List.length_cons, Nat.add_assoc, Nat.add_comm 1]
      · intro last member
        cases here : (Lines.breakEnds (pos + 1) next rest).getLast? with
        | none =>
          -- this break is the last one
          have only := List.getLast?_eq_none_iff.mp here
          rw [only] at member
          cases member
          refine ⟨[c], rest, rfl, by simp [one], ?_⟩
          rw [none only, Nat.zero_add]
        | some later =>
          rw [List.getLast?_cons, here] at member
          cases member
          obtain ⟨lead, line, rfl, place, column⟩ := some later here
          exact ⟨c :: lead, line, rfl, by simp [one, ← place, Nat.add_assoc], column⟩
    · obtain ⟨lines, none, some⟩ := ih ⟨p.line, p.column + Text.units [c]⟩ (pos + c.utf8Size)
      rw [past, if_neg ends, if_neg ends]
      refine ⟨lines, ?_, ?_⟩
      · intro empty
        rw [none empty, Nat.add_assoc]
        rfl
      · intro last member
        obtain ⟨lead, line, rfl, place, column⟩ := some last member
        exact ⟨c :: lead, line, rfl, by simp [← place, Nat.add_assoc], column⟩

end ComponentFile.Position
