import ComponentFile.Markup.Stream

/-! Where raw text ends: at the first place at which an end tag with its name begins. -/
namespace ComponentFile.Markup

def BeginsEndTag (name t : Text) : Prop :=
  ∃ close after, t = '<' :: '/' :: close ++ after ∧ Text.lower close = name ∧
    ∀ d ∈ after.head?, State.endsTagName d = true

theorem endsTagNameExact {d : Char} :
    State.endsTagName d = true ↔ Text.isBlank d = true ∨ d = '/' ∨ d = '>' := by
  simp [State.endsTagName, or_assoc]

theorem alphaInTagName {c : Char} (letter : c.isAlpha = true) : State.endsTagName c = false := by
  refine Bool.eq_false_iff.mpr fun ends => ?_
  have here := endsTagNameExact.mp ends
  simp only [Text.isBlank, Bool.or_eq_true, decide_eq_true_eq] at here
  rcases here with ((((rfl | rfl) | rfl) | rfl) | rfl) | rfl | rfl <;> contradiction

theorem beginsExact {name rest : Text} {c : Char} :
    BeginsEndTag name (c :: rest) ↔
      (c = '<' ∧ rest.head? = some '/' ∧ Text.lower ((rest.drop 1).take name.length) = name) ∧
        ∀ d ∈ (rest.drop (1 + name.length)).head?, State.endsTagName d = true := by
  constructor
  · rintro ⟨close, after, same, rfl, ends⟩
    rw [List.cons_append] at same
    obtain ⟨rfl, rfl⟩ := List.cons.inj same
    have whole : (Text.lower close).length = close.length := List.length_map _
    have inside : List.drop (1 + close.length) ('/' :: close ++ after) = after := by
      rw [Nat.add_comm, List.cons_append, List.drop_succ_cons, List.drop_left]
    rw [whole, inside]
    exact ⟨⟨rfl, rfl, by simp⟩, ends⟩
  · rintro ⟨⟨rfl, slash, same⟩, ends⟩
    obtain ⟨more, rfl⟩ := List.head?_eq_some_iff.mp slash
    rw [Nat.add_comm, List.drop_succ_cons] at ends
    exact ⟨more.take name.length, more.drop name.length, by simp, same, ends⟩

theorem rawEndHere {name rest : Text} {c : Char} (begins : BeginsEndTag name (c :: rest)) :
    rawEnd name true (c :: rest) = .found [] (c :: rest) := by
  obtain ⟨named, ends⟩ := beginsExact.mp begins
  rw [rawEnd, if_pos named]
  split
  · rfl
  · rename_i d tail behind
    rw [behind] at ends
    rw [if_pos (endsTagNameExact.mp (ends d rfl))]

theorem rawEndLater {name rest : Text} {c : Char} (other : ¬ BeginsEndTag name (c :: rest)) :
    rawEnd name true (c :: rest) = (rawEnd name true rest).after c := by
  rw [beginsExact] at other
  rw [rawEnd]
  split
  · rename_i named
    split
    · rename_i nothing
      rw [nothing] at other
      exact absurd ⟨named, by simp⟩ other
    · rename_i d tail behind
      rw [behind] at other
      split
      · rename_i ends
        refine absurd ⟨named, ?_⟩ other
        rintro _ ⟨⟩
        exact endsTagNameExact.mpr ends
      · rfl
  · rfl

theorem rawEndFirst {name before rest : Text} :
    rawEnd name true (before ++ rest) = .found before rest ↔
      BeginsEndTag name rest ∧
        ∀ front back, before = front ++ back → back ≠ [] → ¬ BeginsEndTag name (back ++ rest) := by
  induction before with
  | nil =>
    have nowhere : ∀ front back : Text, [] = front ++ back → back ≠ [] →
        ¬ BeginsEndTag name (back ++ rest) := by
      intro front back none some
      exact absurd (List.append_eq_nil_iff.mp none.symm).2 some
    cases rest with
    | nil => simp [rawEnd, BeginsEndTag]
    | cons c more =>
      by_cases begins : BeginsEndTag name (c :: more)
      · exact iff_of_true (rawEndHere begins) ⟨begins, nowhere⟩
      · refine iff_of_false ?_ (fun both => begins both.1)
        rw [List.nil_append, rawEndLater begins]
        simp [RawEnd.afterFound]
  | cons c more ih =>
    rw [List.cons_append]
    by_cases begins : BeginsEndTag name (c :: (more ++ rest))
    · refine iff_of_false ?_ (fun both => both.2 [] (c :: more) rfl (by simp) begins)
      rw [rawEndHere begins]
      simp
    · have behind : (rawEnd name true (more ++ rest)).after c = .found (c :: more) rest ↔
          rawEnd name true (more ++ rest) = .found more rest := by
        simp [RawEnd.afterFound]
      rw [rawEndLater begins, behind, ih]
      refine and_congr_right fun _ => ⟨?_, ?_⟩
      · intro before front back same some
        rcases List.cons_eq_append_iff.mp same with ⟨rfl, rfl⟩ | ⟨front, rfl, inner⟩
        · exact begins
        · exact before front back inner some
      · intro before front back same some
        exact before (c :: front) back (by rw [same]; rfl) some

example : rawEnd "script" true "a</scripts></SCRIPT " = .found "a</scripts>" "</SCRIPT " := by decide

end ComponentFile.Markup
