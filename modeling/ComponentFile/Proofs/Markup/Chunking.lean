import ComponentFile.Proofs.Markup.Extension

/-! Where a document is cut does not matter. Only text events depend on the cuts, and joining the
adjacent ones takes that away. -/
namespace ComponentFile.Markup

def glueText (a : Span) : List Event → List Event
  | .text b :: rest =>
      if a.stop = b.start then .text ⟨a.start, b.stop⟩ :: rest else .text a :: .text b :: rest
  | rest => .text a :: rest

def joinText : List Event → List Event
  | [] => []
  | .text a :: rest => glueText a (joinText rest)
  | e :: rest => e :: joinText rest

theorem glueTwice (a b c : Nat) (events : List Event) :
    glueText ⟨a, b⟩ (glueText ⟨b, c⟩ events) = glueText ⟨a, c⟩ events := by
  cases events with
  | nil => simp [glueText]
  | cons e rest =>
    cases e with
    | text d =>
      by_cases meets : c = d.start
      · simp [glueText, meets]
      · simp [glueText, meets]
    | opened tag => simp [glueText]
    | closed name span => simp [glueText]
    | comment span => simp [glueText]

theorem joinTextCons {a b : List Event} (e : Event) (h : joinText a = joinText b) :
    joinText (e :: a) = joinText (e :: b) := by
  cases e <;> simp [joinText, h]

theorem joinTextAppend {a b : List Event} (front : List Event) (h : joinText a = joinText b) :
    joinText (front ++ a) = joinText (front ++ b) := by
  induction front with
  | nil => exact h
  | cons e rest ih => exact joinTextCons e ih

abbrev Reading := List Event × Except ParseError State

def Alike (a b : Reading) : Prop := joinText a.1 = joinText b.1 ∧ a.2 = b.2

theorem Alike.symm {a b : Reading} (h : Alike a b) : Alike b a := ⟨h.1.symm, h.2.symm⟩

theorem Alike.trans {a b c : Reading} (h : Alike a b) (k : Alike b c) : Alike a c :=
  ⟨h.1.trans k.1, h.2.trans k.2⟩

theorem Alike.prepend {a b : Reading} (front : List Event) (h : Alike a b) :
    Alike (front ++ a.1, a.2) (front ++ b.1, b.2) :=
  ⟨joinTextAppend front h.1, h.2⟩

namespace State

theorem textSplits (more : Text) : ∃ front rest : Text, more = front ++ rest ∧
    (∀ c ∈ front, c ≠ '<') ∧ ∀ c ∈ rest.head?, c = '<' := by
  refine ⟨more.takeWhile fun c => decide (c ≠ '<'), more.dropWhile fun c => decide (c ≠ '<'),
    List.takeWhile_append_dropWhile.symm, fun c member => ?_, fun c member => ?_⟩
  · simpa using List.mem_takeWhile_imp member
  · have := List.head?_dropWhile_not (fun c => decide (c ≠ '<')) more
    rw [Option.mem_def.mp member] at this
    simpa using this

theorem drainInText {s : State} (more : Text) (text : s.InText) :
    Alike ((s.extend more).drain true)
      (.text (s.spanOf s.pending) :: ((s.moved s.pending more).drain true).1,
        ((s.moved s.pending more).drain true).2) := by
  obtain ⟨raw, nonempty, free⟩ := text
  obtain ⟨front, rest, rfl, goesOn, stop⟩ := textSplits more
  have whole : (s.extend (front ++ rest)).step true =
      .emit (.text (s.spanOf (s.pending ++ front))) (s.moved (s.pending ++ front) rest) := by
    have splits : (s.extend (front ++ rest)).pending = (s.pending ++ front) ++ rest := by simp
    refine textStep raw splits (by simp [nonempty]) ?_ stop
    intro c member
    rcases List.mem_append.mp member with h | h
    · exact free c h
    · exact goesOn c h
  rw [drainEmit whole]
  by_cases same : front = []
  · subst same
    rw [List.append_nil]
    exact ⟨rfl, rfl⟩
  · -- the second event of the pair starts where the first stops, so joining makes one of them
    have second : (s.moved s.pending (front ++ rest)).step true =
        .emit (.text ((s.moved s.pending (front ++ rest)).spanOf front))
          ((s.moved s.pending (front ++ rest)).moved front rest) :=
      textStep rfl rfl same goesOn stop
    rw [drainEmit second]
    have next : (s.moved s.pending (front ++ rest)).moved front rest =
        s.moved (s.pending ++ front) rest := by
      simp [moved, Nat.add_assoc]
    have span : (s.moved s.pending (front ++ rest)).spanOf front =
        ⟨s.pos + s.pending.size, s.pos + (s.pending ++ front).size⟩ := by
      simp [moved, spanOf, Nat.add_assoc]
    rw [next, span]
    exact ⟨(glueTwice _ _ _ _).symm, rfl⟩

def resume (more : Text) : Reading → Reading
  | (events, .error e) => (events, .error e)
  | (events, .ok held) =>
      (events ++ ((held.extend more).drain true).1, ((held.extend more).drain true).2)

theorem resumeCons (more : Text) (e : Event) (r : Reading) :
    resume more (e :: r.1, r.2) = (e :: (resume more r).1, (resume more r).2) := by
  obtain ⟨events, last⟩ := r
  cases last <;> rfl

theorem drainExtend {s : State} {events : List Event} {last : Except ParseError State}
    (more : Text) (h : Trace false s events last) :
    Alike ((s.extend more).drain true) (resume more (events, last)) := by
  induction h with
  | wait here => exact ⟨rfl, rfl⟩
  | @failed s e here =>
    have decided : s.step false ≠ .wait := by simp [here]
    rcases stepExtend more decided with same | text
    · rw [here] at same
      rw [drainFailed same]
      exact ⟨rfl, rfl⟩
    · rw [inTextStep text] at here
      contradiction
  | @emit s e next events last here tail ih =>
    have onward : Alike (e :: ((next.extend more).drain true).1, ((next.extend more).drain true).2)
        (resume more (e :: events, last)) := by
      rw [resumeCons more e (events, last)]
      exact ih.prepend [e]
    have decided : s.step false ≠ .wait := by simp [here]
    rcases stepExtend more decided with same | text
    · rw [here] at same
      rw [drainEmit same]
      exact onward
    · rw [inTextStep text] at here
      cases here
      exact (drainInText more text).trans onward

theorem feedAlike (s : State) (chunks : List Text) :
    Alike (s.feed chunks) ((s.extend chunks.flatten).drain true) := by
  induction chunks generalizing s with
  | nil => rw [List.flatten_nil, extendNil]; exact ⟨rfl, rfl⟩
  | cons chunk rest ih =>
    have step : Alike (((s.extend chunk).extend rest.flatten).drain true)
        (resume rest.flatten (s.write chunk)) :=
      drainExtend rest.flatten (drainTrace false (s.extend chunk))
    rw [List.flatten_cons, extendAppend]
    refine Alike.trans ?_ step.symm
    rcases reading : s.write chunk with ⟨events, last⟩
    cases last with
    | error e => rw [feedStopped rest reading]; exact ⟨rfl, rfl⟩
    | ok held => rw [feedOnward rest reading]; exact (ih held).prepend events

/- Written in any pieces, a document ends the same way as in one piece: in the same final state or
with the same error. Its events are the same once adjacent text is joined. -/
theorem chunkingIrrelevant (chunks : List Text) :
    (State.start.feed chunks).2 = (State.start.feed [chunks.flatten]).2 ∧
      joinText (State.start.feed chunks).1 = joinText (State.start.feed [chunks.flatten]).1 := by
  have pieces := feedAlike start chunks
  have whole := feedAlike start [chunks.flatten]
  rw [List.flatten_singleton] at whole
  obtain ⟨events, last⟩ := pieces.trans whole.symm
  exact ⟨last, events⟩

end State

end ComponentFile.Markup
