import ComponentFile.Proofs.Markup.Failures

/-! The events of a document cut a beginning of it into pieces: every event has a piece of its own,
none is empty, and each begins where the one before stops. -/
namespace ComponentFile.Markup

/- `Cuts pos t events rest`: from byte `pos` on, where `t` stands, the events take the pieces of
`t` in their order and leave `rest`. -/
inductive Cuts : Nat → Text → List Event → Text → Prop where
  | nil (pos : Nat) (t : Text) : Cuts pos t [] t
  | cons {pos t e events rest} (taken : Text) (nonempty : taken ≠ [])
      (span : e.span = ⟨pos, pos + taken.size⟩)
      (angles : ∀ tag, e = .opened tag → ∃ inside, taken = '<' :: inside ++ ['>'])
      (tail : Cuts (pos + taken.size) t events rest) : Cuts pos (taken ++ t) (e :: events) rest

theorem cutsMore {pos : Nat} {t rest : Text} {events : List Event} (more : Text)
    (h : Cuts pos t events rest) : Cuts pos (t ++ more) events (rest ++ more) := by
  induction h with
  | nil pos t => exact .nil pos _
  | cons taken nonempty span angles tail ih =>
    rw [List.append_assoc]
    exact .cons taken nonempty span angles ih

theorem cutsAppend {pos : Nat} {t middle rest : Text} {a b : List Event}
    (h : Cuts pos t a middle) (k : Cuts (pos + t.size - middle.size) middle b rest) :
    Cuts pos t (a ++ b) rest := by
  induction h with
  | nil pos t => simpa using k
  | @cons pos t e events middle taken nonempty span angles tail ih =>
    refine .cons taken nonempty span angles (ih ?_)
    rw [Text.sizeAppend, ← Nat.add_assoc] at k
    exact k

theorem cutsFront {pos : Nat} {t rest : Text} {events : List Event} (h : Cuts pos t events rest) :
    ∃ front, t = front ++ rest := by
  induction h with
  | nil pos t => exact ⟨[], rfl⟩
  | cons taken nonempty span angles tail ih =>
    obtain ⟨front, rfl⟩ := ih
    exact ⟨taken ++ front, by simp⟩

theorem cutsPlace {pos : Nat} {t rest : Text} {events : List Event} {e : Event}
    (h : Cuts pos t events rest) (member : e ∈ events) :
    ∃ before taken after, t = before ++ taken ++ after ∧ taken ≠ [] ∧
      e.span = ⟨pos + before.size, pos + before.size + taken.size⟩ ∧
      ∀ tag, e = .opened tag → ∃ inside, taken = '<' :: inside ++ ['>'] := by
  induction h with
  | nil pos t => simp at member
  | @cons pos t first events rest taken nonempty span angles tail ih =>
    rcases List.mem_cons.mp member with rfl | later
    · exact ⟨[], taken, t, rfl, nonempty, by simpa using span, angles⟩
    · obtain ⟨before, piece, after, rfl, some, place, front⟩ := ih later
      exact ⟨taken ++ before, piece, after, by simp, some, by simpa [Nat.add_assoc] using place,
        front⟩

theorem cutsWithin {pos : Nat} {t rest : Text} {events : List Event} {e : Event}
    (h : Cuts pos t events rest) (member : e ∈ events) :
    pos ≤ e.span.start ∧ e.span.start < e.span.stop := by
  obtain ⟨before, taken, after, _, nonempty, place, _⟩ := cutsPlace h member
  have := Text.sizePositive nonempty
  rw [place]
  simp only
  omega

theorem cutsBoundaries {t rest : Text} {events : List Event} {e : Event}
    (h : Cuts 0 t events rest) (member : e ∈ events) :
    t.Boundary e.span.start ∧ t.Boundary e.span.stop := by
  obtain ⟨before, taken, after, rfl, _, place, _⟩ := cutsPlace h member
  rw [place]
  exact ⟨⟨before, taken ++ after, by simp, by simp⟩, ⟨before ++ taken, after, rfl, by simp⟩⟩

theorem cutsOrdered {pos : Nat} {t rest : Text} {events : List Event} (h : Cuts pos t events rest) :
    events.Pairwise fun a b => a.span.stop ≤ b.span.start := by
  induction h with
  | nil pos t => exact .nil
  | @cons pos t first events rest taken nonempty span angles tail ih =>
    refine .cons (fun e later => ?_) ih
    rw [span]
    exact (cutsWithin tail later).1

namespace State

/- Reading `t`, which stands at `pos`, leads to `held`: the events cut `t` up to what is pending
there, and an error is about a part of that. -/
structure Reaches (pos : Nat) (t : Text) (events : List Event) (last : Except ParseError State)
    (held : State) : Prop where
  cuts : Cuts pos t events held.pending
  total : held.total = pos + t.size
  ended : last = .ok held ∨ ∃ e, last = .error e ∧ held.Marks e.span

theorem reachesFront {pos : Nat} {t : Text} {events : List Event} {last : Except ParseError State}
    {held : State} (h : Reaches pos t events last held) :
    ∃ front, t = front ++ held.pending ∧ pos + front.size = held.pos := by
  obtain ⟨front, splits⟩ := cutsFront h.cuts
  have total := h.total
  rw [splits, Text.sizeAppend, State.total] at total
  exact ⟨front, splits, by omega⟩

theorem traceReaches {final : Bool} {s : State} {events : List Event}
    {last : Except ParseError State} (h : Trace final s events last) :
    ∃ held, Reaches s.pos s.pending events last held ∧ (last = .ok held → held.step final = .wait) := by
  induction h with
  | @wait s here => exact ⟨s, ⟨.nil _ _, rfl, .inl rfl⟩, fun _ => here⟩
  | @failed s e here => exact ⟨s, ⟨.nil _ _, rfl, .inr ⟨e, rfl, stepMarks here⟩⟩, by simp⟩
  | @emit s e next events last here tail ih =>
    obtain ⟨held, ⟨cuts, total, ended⟩, waits⟩ := ih
    obtain ⟨taken, takes⟩ := stepTakes here
    rw [takes.moves] at cuts total
    rw [takes.splits]
    refine ⟨held, ⟨.cons taken takes.nonempty takes.span takes.angles cuts, ?_, ended⟩, waits⟩
    rw [total, Text.sizeAppend, Nat.add_assoc]

def written (s : State) : List Text → Text
  | [] => []
  | chunk :: rest =>
      match s.write chunk with
      | (_, .error _) => chunk
      | (_, .ok next) => chunk ++ next.written rest

section Written
variable {s : State} {chunk : Text} {events : List Event}

theorem writtenStopped {e : ParseError} (rest : List Text)
    (reading : s.write chunk = (events, .error e)) : s.written (chunk :: rest) = chunk := by
  simp only [written, reading]

theorem writtenOnward {next : State} (rest : List Text)
    (reading : s.write chunk = (events, .ok next)) :
    s.written (chunk :: rest) = chunk ++ next.written rest := by
  simp only [written, reading]

theorem writtenBegins (s : State) (chunks : List Text) : s.written chunks <+: chunks.flatten := by
  induction chunks generalizing s with
  | nil => exact List.prefix_refl _
  | cons chunk rest ih =>
    rw [List.flatten_cons]
    rcases reading : s.write chunk with ⟨events, last⟩
    cases last with
    | error e => rw [writtenStopped rest reading]; exact List.prefix_append _ _
    | ok held =>
      rw [writtenOnward rest reading]
      exact (List.prefix_append_right_inj chunk).mpr (ih held)

end Written

theorem feedReaches (s : State) (chunks : List Text) :
    ∃ held, Reaches s.pos (s.pending ++ s.written chunks) (s.feed chunks).1 (s.feed chunks).2 held ∧
      ((s.feed chunks).2 = .ok held → held.pending = [] ∧ s.written chunks = chunks.flatten) := by
  induction chunks generalizing s with
  | nil =>
    obtain ⟨held, reaches, waits⟩ := traceReaches (drainTrace true s)
    rw [written, List.append_nil]
    refine ⟨held, reaches, fun done => ⟨?_, rfl⟩⟩
    exact (stepDecides (waits done)).1
  | cons chunk rest ih =>
    obtain ⟨held, first, _⟩ :=
      traceReaches (drainTrace false { s with pending := s.pending ++ chunk })
    change Reaches s.pos (s.pending ++ chunk) (s.write chunk).1 (s.write chunk).2 held at first
    rcases reading : s.write chunk with ⟨events, last⟩
    rw [reading] at first
    cases last with
    | error e =>
      rw [feedStopped rest reading, writtenStopped rest reading]
      exact ⟨held, first, by simp⟩
    | ok next =>
      obtain ⟨cuts, total, ended⟩ := first
      have same : next = held := by simpa using ended
      subst same
      obtain ⟨last, ⟨onward, sum, stops⟩, whole⟩ := ih next
      rw [feedOnward rest reading, writtenOnward rest reading, ← List.append_assoc]
      refine ⟨last, ⟨cutsAppend (cutsMore _ cuts) ?_, ?_, stops⟩, ?_⟩
      · have place : s.pos + (s.pending ++ chunk ++ next.written rest).size -
            (next.pending ++ next.written rest).size = next.pos := by
          simp only [State.total, Text.sizeAppend] at total ⊢
          omega
        rw [place]
        exact onward
      · simp only [State.total, Text.sizeAppend] at total sum ⊢
        omega
      · intro done
        exact ⟨(whole done).1, by rw [(whole done).2, List.flatten_cons]⟩

theorem feedCuts (s : State) (chunks : List Text) :
    ∃ rest, Cuts s.pos (s.pending ++ chunks.flatten) (s.feed chunks).1 rest := by
  obtain ⟨held, ⟨cuts, _, _⟩, _⟩ := feedReaches s chunks
  obtain ⟨later, whole⟩ := writtenBegins s chunks
  rw [← whole, ← List.append_assoc]
  exact ⟨_, cutsMore later cuts⟩

end State

theorem eventsCuts {document : Text} {found : List Event} (h : events document = .ok found) :
    ∃ rest, Cuts 0 document found rest := by
  obtain ⟨rest, cuts⟩ := State.feedCuts State.start [document]
  unfold events at h
  split at h
  · rename_i delivered last here
    cases h
    rw [here] at cuts
    exact ⟨rest, by simpa [State.start] using cuts⟩
  · contradiction

end ComponentFile.Markup
