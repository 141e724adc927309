import ComponentFile.Markup.Stream
import ComponentFile.Proofs.Text.Slice

/-! Runs of the reader as traces, one constructor for each answer of a step. Every event takes a
nonempty beginning of what is pending and names exactly the bytes of it. -/
namespace ComponentFile.Markup.State

inductive Trace (final : Bool) : State → List Event → Except ParseError State → Prop where
  | wait {s} (here : s.step final = .wait) : Trace final s [] (.ok s)
  | failed {s e} (here : s.step final = .failed e) : Trace final s [] (.error e)
  | emit {s e next events last} (here : s.step final = .emit e next)
      (tail : Trace final next events last) : Trace final s (e :: events) last

theorem drainWait {final : Bool} {s : State} (h : s.step final = .wait) :
    s.drain final = ([], .ok s) := by
  rw [drain]
  split
  · rfl
  · rename_i other; rw [h] at other; contradiction
  · rename_i other; rw [h] at other; contradiction

theorem drainFailed {final : Bool} {s : State} {e : ParseError} (h : s.step final = .failed e) :
    s.drain final = ([], .error e) := by
  rw [drain]
  split
  · rename_i other; rw [h] at other; contradiction
  · rename_i other; rw [h] at other; cases other; rfl
  · rename_i other; rw [h] at other; contradiction

theorem drainEmit {final : Bool} {s next : State} {e : Event} (h : s.step final = .emit e next) :
    s.drain final = (e :: (next.drain final).1, (next.drain final).2) := by
  rw [drain]
  split
  · rename_i other; rw [h] at other; contradiction
  · rename_i other; rw [h] at other; contradiction
  · rename_i other; rw [h] at other; cases other; rfl

theorem drainTrace (final : Bool) (s : State) :
    Trace final s (s.drain final).1 (s.drain final).2 := by
  induction n : s.pending.length using Nat.strongRecOn generalizing s with
  | _ n ih =>
    subst n
    cases here : s.step final with
    | wait => rw [drainWait here]; exact .wait here
    | failed e => rw [drainFailed here]; exact .failed here
    | emit e next =>
      rw [drainEmit here]
      exact .emit here (ih next.pending.length (stepShortens here) next rfl)

theorem traceDrain {final : Bool} {s : State} {events last} (h : Trace final s events last) :
    s.drain final = (events, last) := by
  induction h with
  | wait here => exact drainWait here
  | failed here => exact drainFailed here
  | emit here tail ih => rw [drainEmit here, ih]

section Feed
variable {s : State} {chunk : Text} {events : List Event}

theorem feedStopped {e : ParseError} (rest : List Text)
    (reading : s.write chunk = (events, .error e)) :
    s.feed (chunk :: rest) = (events, .error e) := by
  simp only [feed, reading]

theorem feedOnward {next : State} (rest : List Text)
    (reading : s.write chunk = (events, .ok next)) :
    s.feed (chunk :: rest) = (events ++ (next.feed rest).1, (next.feed rest).2) := by
  simp only [feed, reading]

end Feed

/- What one event takes: `taken` begins what is pending, is not empty, and gives the event its
span. A start tag stands between its angles, and only a raw-text element changes how to go on. -/
structure Takes (s : State) (taken : Text) (e : Event) (next : State) : Prop where
  nonempty : taken ≠ []
  splits : s.pending = taken ++ next.pending
  moves : next.pos = s.pos + taken.size
  span : e.span = s.spanOf taken
  angles : ∀ tag, e = .opened tag → ∃ inside, taken = '<' :: inside ++ ['>']
  raw : ∀ name, next.raw = some name → name ∈ rawElements

theorem breakOnCut {needle t before found : Text}
    (h : Text.breakOn? needle t = some (before, found)) :
    t = before ++ needle ++ found.drop needle.length := by
  obtain ⟨after, rfl⟩ := List.isPrefixOf_iff_prefix.mp (Text.breakOnStarts h)
  rw [List.drop_left, ← Text.breakOnSplits h, List.append_assoc]

theorem breakOnFirst {needle : Char} {before rest : Text} (absent : needle ∉ before) :
    Text.breakOn? [needle] (before ++ needle :: rest) = some (before, needle :: rest) := by
  induction before with
  | nil => simp [Text.breakOn?]
  | cons c more ih =>
    simp only [List.mem_cons, not_or] at absent
    obtain ⟨other, later⟩ := absent
    simp [Text.breakOn?, other, ih later]

theorem textTakes {s : State} {taken rest : Text} (nonempty : taken ≠ [])
    (splits : s.pending = taken ++ rest) :
    Takes s taken (.text (s.spanOf taken)) (s.moved taken rest) :=
  ⟨nonempty, splits, rfl, rfl, by simp, by simp [moved]⟩

theorem commentTakes {s : State} {taken rest : Text} (nonempty : taken ≠ [])
    (splits : s.pending = taken ++ rest) :
    Takes s taken (.comment (s.spanOf taken)) (s.moved taken rest) :=
  ⟨nonempty, splits, rfl, rfl, by simp, by simp [moved]⟩

theorem declarationTakes {final : Bool} {s next : State} {opening : Nat} {terminator : Text}
    {e : Event} (nonempty : terminator ≠ [])
    (h : s.declarationUntil final opening terminator = .emit e next) :
    ∃ taken, Takes s taken e next := by
  unfold declarationUntil at h
  split at h
  · rename_i before found here
    cases h
    have cut := breakOnCut here
    refine ⟨_, commentTakes (by simp [nonempty]) ?_⟩
    rw [List.append_assoc, List.append_assoc, ← List.append_assoc before, ← cut,
      List.take_append_drop]
  · exact absurd h awaitingEmitsNothing

theorem endTagTakes {final : Bool} {s next : State} {e : Event}
    (h : s.endTag final = .emit e next) : ∃ taken, Takes s taken e next := by
  unfold endTag at h
  split at h
  · exact absurd h awaitingEmitsNothing
  · rename_i before found here
    have cut := breakOnCut here
    simp only at h
    split at h
    · cases h
      exact ⟨before ++ ['>'], by simp, cut, rfl, rfl, by simp, by simp [moved]⟩
    · cases h
      exact ⟨before ++ ['>'], commentTakes (by simp) cut⟩

theorem tagEndStops {quote : Option Char} {t inside rest : Text}
    (h : tagEnd? quote t = some (inside, rest)) : ∃ before, inside = before ++ ['>'] := by
  induction t generalizing quote inside with
  | nil => cases quote <;> simp [tagEnd?] at h
  | cons c more ih =>
    cases quote with
    | none =>
      simp only [tagEnd?] at h
      split at h
      · cases h; exact ⟨[], rfl⟩
      · obtain ⟨⟨i, r⟩, inner, same⟩ := Option.map_eq_some_iff.mp h
        cases same
        obtain ⟨before, rfl⟩ := ih inner
        exact ⟨c :: before, rfl⟩
    | some q =>
      simp only [tagEnd?] at h
      obtain ⟨⟨i, r⟩, inner, same⟩ := Option.map_eq_some_iff.mp h
      cases same
      obtain ⟨before, rfl⟩ := ih inner
      exact ⟨c :: before, rfl⟩

theorem startTagTakes {final : Bool} {s next : State} {rest : Text} {e : Event}
    (angle : s.pending = '<' :: rest) (h : s.startTag final = .emit e next) :
    ∃ taken, Takes s taken e next := by
  unfold startTag at h
  simp only at h
  split at h
  · exact absurd h awaitingEmitsNothing
  · split at h
    · contradiction
    · split at h
      · exact absurd h awaitingEmitsNothing
      · rename_i inside after here
        split at h
        · contradiction
        · cases h
          have cut := tagEndSplits here
          refine ⟨_, by simp, ?_, rfl, rfl, ?_, ?_⟩
          · simp only [angle, List.drop_succ_cons, List.drop_zero] at cut ⊢
            simp only [moved, List.cons_append, List.append_assoc, cut,
              List.takeWhile_append_dropWhile]
          · obtain ⟨before, rfl⟩ := tagEndStops here
            intro tag _
            exact ⟨_, (List.append_assoc _ before ['>']).symm⟩
          · intro name known
            simp only at known
            split at known
            · rename_i element
              cases known
              simp only [Bool.and_eq_true, List.contains_iff_mem] at element
              exact element.2
            · contradiction

theorem constructTakes {final : Bool} {s next : State} {rest : Text} {e : Event}
    (angle : s.pending = '<' :: rest) (h : s.construct final rest = .emit e next) :
    ∃ taken, Takes s taken e next := by
  unfold construct at h
  split at h
  · split at h
    · cases h; exact ⟨_, textTakes (by simp) angle⟩
    · contradiction
  · split at h
    · unfold declaration at h
      split at h
      · exact declarationTakes (by simp) h
      · split at h
        · contradiction
        · exact declarationTakes (by simp) h
    · split at h
      · exact endTagTakes h
      · split at h
        · exact startTagTakes angle h
        · cases h; exact ⟨_, textTakes (by simp) angle⟩

theorem plainTakes {final : Bool} {s next : State} {e : Event}
    (h : s.plain final = .emit e next) : ∃ taken, Takes s taken e next := by
  unfold plain at h
  split at h
  · contradiction
  · rename_i c rest here
    split at h
    · rename_i angle
      subst c
      exact constructTakes here h
    · rename_i other
      cases h
      refine ⟨_, textTakes ?_ ?_⟩
      · simp [other]
      · rw [here, List.takeWhile_append_dropWhile]

theorem stepTakes {final : Bool} {s next : State} {e : Event} (h : s.step final = .emit e next) :
    ∃ taken, Takes s taken e next := by
  unfold step at h
  split at h
  · exact plainTakes h
  · split at h
    · exact plainTakes h
    · rename_i here
      cases h
      exact ⟨_, textTakes (by simp) (rawEndSplits here).symm⟩
    · contradiction
    · contradiction

def RawKnown (s : State) : Prop := ∀ name, s.raw = some name → name ∈ rawElements

theorem traceRawKnown {final : Bool} {s held : State} {events : List Event}
    {last : Except ParseError State} (h : Trace final s events last) (known : s.RawKnown)
    (ended : last = .ok held) : held.RawKnown := by
  induction h with
  | wait here => cases ended; exact known
  | failed here => contradiction
  | emit here tail ih =>
    obtain ⟨taken, takes⟩ := stepTakes here
    exact ih takes.raw ended

end ComponentFile.Markup.State
