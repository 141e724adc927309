import ComponentFile.Proofs.Markup.Tokens
import ComponentFile.Proofs.Markup.Trace

/-! What an error is about, and what is left when there is none. An error names a part of what was
pending when it came; once the end of input is in sight, nothing is held back. -/
namespace ComponentFile.Markup.State

def Marks (s : State) (span : Span) : Prop :=
  ∃ before piece after, s.pending = before ++ piece ++ after ∧
    span = ⟨s.pos + before.size, s.pos + before.size + piece.size⟩

theorem marksAll (s : State) : s.Marks (s.spanOf s.pending) :=
  ⟨[], s.pending, [], by simp, by simp [spanOf]⟩

theorem awaitingMarks {final : Bool} {s : State} {awaited : Awaited} {e : ParseError}
    (h : s.awaiting final awaited = .failed e) : s.Marks e.span := by
  unfold awaiting at h
  split at h
  · cases h; exact marksAll s
  · contradiction

theorem declarationUntilMarks {final : Bool} {s : State} {opening : Nat} {terminator : Text}
    {e : ParseError} (h : s.declarationUntil final opening terminator = .failed e) :
    s.Marks e.span := by
  unfold declarationUntil at h
  split at h
  · contradiction
  · exact awaitingMarks h

theorem declarationMarks {final : Bool} {s : State} {e : ParseError}
    (h : s.declaration final = .failed e) : s.Marks e.span := by
  unfold declaration at h
  split at h
  · exact declarationUntilMarks h
  · split at h
    · contradiction
    · exact declarationUntilMarks h

theorem endTagMarks {final : Bool} {s : State} {e : ParseError} (h : s.endTag final = .failed e) :
    s.Marks e.span := by
  unfold endTag at h
  split at h
  · exact awaitingMarks h
  · simp only at h
    split at h <;> contradiction

theorem startTagMarks {final : Bool} {s : State} {rest : Text} {e : ParseError}
    (angle : s.pending = '<' :: rest) (h : s.startTag final = .failed e) : s.Marks e.span := by
  have one : '<'.utf8Size = 1 := by decide
  have cut := List.takeWhile_append_dropWhile (p := fun c => !endsTagName c) (l := rest)
  unfold startTag at h
  simp only [angle, List.drop_succ_cons, List.drop_zero] at h
  generalize rest.takeWhile (fun c => !endsTagName c) = name at cut h
  generalize rest.dropWhile (fun c => !endsTagName c) = afterName at cut h
  split at h
  · exact awaitingMarks h
  · split at h
    · cases h
      exact ⟨['<'], name, afterName, by simp [angle, ← cut], by simp [one]⟩
    · split at h
      · exact awaitingMarks h
      · rename_i inside after here
        split at h
        · rename_i other failed
          cases h
          obtain ⟨token, member, same⟩ :=
            Attributes.readsBlames (Attributes.readReads _) e failed
          obtain ⟨before, behind, rfl, place⟩ := Token.scansPlace (Token.scanScans _ _) member
          have splits := tagEndSplits here
          refine ⟨'<' :: name ++ before, token.text, behind ++ after, ?_, ?_⟩
          · simp [angle, ← cut, ← splits]
          · rw [same, place]
            simp [one, Nat.add_assoc]
        · contradiction

theorem constructMarks {final : Bool} {s : State} {rest : Text} {e : ParseError}
    (angle : s.pending = '<' :: rest) (h : s.construct final rest = .failed e) :
    s.Marks e.span := by
  unfold construct at h
  split at h
  · split at h <;> contradiction
  · split at h
    · exact declarationMarks h
    · split at h
      · exact endTagMarks h
      · split at h
        · exact startTagMarks angle h
        · contradiction

theorem plainMarks {final : Bool} {s : State} {e : ParseError} (h : s.plain final = .failed e) :
    s.Marks e.span := by
  unfold plain at h
  split at h
  · contradiction
  · rename_i c rest here
    split at h
    · rename_i angle
      subst c
      exact constructMarks here h
    · contradiction

theorem stepMarks {final : Bool} {s : State} {e : ParseError} (h : s.step final = .failed e) :
    s.Marks e.span := by
  unfold step at h
  split at h
  · exact plainMarks h
  · split at h
    · exact plainMarks h
    · contradiction
    · contradiction
    · cases h; exact marksAll s

theorem awaitingDecides {s : State} {awaited : Awaited} : s.awaiting true awaited ≠ .wait := by
  simp [awaiting]

theorem declarationUntilDecides {s : State} {opening : Nat} {terminator : Text} :
    s.declarationUntil true opening terminator ≠ .wait := by
  unfold declarationUntil
  split
  · simp [emitComment]
  · exact awaitingDecides

theorem startTagDecides {s : State} : s.startTag true ≠ .wait := by
  unfold startTag
  simp only
  split
  · exact awaitingDecides
  · split
    · simp
    · split
      · exact awaitingDecides
      · split <;> simp

theorem constructDecides {s : State} {rest : Text} : s.construct true rest ≠ .wait := by
  unfold construct
  split
  · simp [emitText]
  · split
    · unfold declaration
      split
      · exact declarationUntilDecides
      · split
        · simp_all
        · exact declarationUntilDecides
    · split
      · unfold endTag
        split
        · exact awaitingDecides
        · simp only
          split <;> simp [emitComment]
      · split
        · exact startTagDecides
        · simp [emitText]

theorem plainDecides {s : State} (h : s.plain true = .wait) : s.pending = [] := by
  unfold plain at h
  split at h
  · assumption
  · split at h
    · exact absurd h constructDecides
    · contradiction

theorem rawEndDecides {name t : Text} : rawEnd name true t ≠ .wait := by
  induction t with
  | nil => simp [rawEnd]
  | cons c rest ih =>
    have later : (rawEnd name true rest).after c ≠ .wait := mt RawEnd.afterWait.mp ih
    simp only [rawEnd]
    split
    · split
      · simp
      · split
        · simp
        · exact later
    · exact later

theorem stepDecides {s : State} (h : s.step true = .wait) : s.pending = [] ∧ s.raw = none := by
  unfold step at h
  split at h
  · rename_i plain
    exact ⟨plainDecides h, plain⟩
  · split at h
    · rename_i here
      rw [plainDecides h] at here
      simp [rawEnd] at here
    · contradiction
    · rename_i here
      exact absurd here rawEndDecides
    · contradiction

end ComponentFile.Markup.State
