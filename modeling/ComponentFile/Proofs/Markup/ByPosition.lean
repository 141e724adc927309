import ComponentFile.Proofs.Markup.ConstructsByPosition
import ComponentFile.Proofs.Markup.Tiling

/-! Reading a document by byte positions. A step that does not go on has no outcome either, so that a
run always comes to its end. Up to 32 bits of text, in whatever chunks, all that is asked for has an
outcome, and the events and the end are those of reading by characters. -/
namespace ComponentFile.Markup
open State

namespace Reader

def leaveRaw (r : Reader) : Reader := { r with raw := none }

def step? (final : Bool) (r : Reader) : Option Move :=
  match r.raw with
  | none => r.plain? final
  | some name => do
      let rest ← Text.dropBytes? r.pos r.source
      let ended ← rawEndPlace? name final rest 0
      match ended with
      | .found 0 => r.leaveRaw.plain? final
      | .found place => r.emitText? (r.pos + place)
      | .wait => some (.wait r)
      | .missing => r.failing? (.unclosedTag name)

/- A step that does not go on would be taken for ever. -/
def drain? (final : Bool) (r : Reader) : Option (List Event × Except ParseError Reader) :=
  match r.step? final with
  | none => none
  | some (.wait held) => some ([], .ok held)
  | some (.failed e) => some ([], .error e)
  | some (.emit e pos raw) =>
      if r.pos < pos ∧ pos ≤ r.source.size then do
        let (events, last) ← drain? final ⟨r.source, pos, raw⟩
        some (e :: events, last)
      else none
termination_by r.source.size - r.pos

def write? (r : Reader) (chunk : Text) : Option (List Event × Except ParseError Reader) :=
  drain? false { r with source := r.source ++ chunk }

def feed? (r : Reader) : List Text → Option (List Event × Except ParseError Unit)
  | [] => do
      let (events, last) ← r.drain? true
      some (events, last.map fun _ => ())
  | chunk :: rest => do
      let (events, last) ← r.write? chunk
      match last with
      | .error e => some (events, .error e)
      | .ok next => do
          let (more, last) ← feed? next rest
          some (events ++ more, last)

def RawEnded (s : State) : Prop :=
  ∃ name, s.raw = some name ∧
    ∀ final more, ∃ rest, rawEnd name final (s.pending ++ more) = .found [] rest

/- The reader has come as far as the state. Where raw text has ended it may know that already. -/
structure Follows (r : Reader) (s : State) : Prop where
  shows : r.Shows s
  known : s.RawKnown
  raw : r.raw = s.raw ∨ r.raw = none ∧ RawEnded s

section Run
variable {final : Bool} {r : Reader} {s next : State} {e : Event}

theorem rawEndStays {name : Text} {t rest : Text} (here : rawEnd name false t = .found [] rest)
    (final : Bool) (more : Text) : ∃ rest, rawEnd name final (t ++ more) = .found [] rest :=
  ⟨_, rawEndExtend more here⟩

theorem stepExact (follows : r.Follows s) (final : Bool) : ∃ held : Reader,
    r.step? final = some ((s.step final).move held) ∧ (final = false → held.Follows s) := by
  obtain ⟨shows, known, raw⟩ := follows
  unfold step? step
  rcases raw with same | ⟨left, name, inside, ended⟩
  · rw [same]
    cases inside : s.raw with
    | none => exact ⟨r, plainExact shows, fun _ => ⟨shows, known, .inl same⟩⟩
    | some name =>
      have stays : final = false → r.Follows s := fun _ => ⟨shows, known, .inl same⟩
      have search : rawEndPlace? name final s.pending 0 =
          some ((rawEnd name final s.pending).place 0) :=
        rawEndPlaceExact (known name inside) [] s.pending
      simp only [showsRest shows, Option.bind_eq_bind, Option.bind_some, search]
      cases here : rawEnd name final s.pending with
      | wait => exact ⟨r, rfl, stays⟩
      | missing => exact ⟨r, failingExact shows _, stays⟩
      | found before rest =>
        have cut := rawEndSplits here
        cases before with
        | nil =>
          refine ⟨r.leaveRaw, plainExact ⟨shows.source, shows.pos, shows.short⟩, ?_⟩
          rintro rfl
          exact ⟨⟨shows.source, shows.pos, shows.short⟩, known,
            .inr ⟨rfl, name, inside, rawEndStays here⟩⟩
        | cons c before =>
          have positive := Nat.ne_of_gt (Text.sizePositive (List.cons_ne_nil c before))
          refine ⟨r, ?_, stays⟩
          simp only [RawEnd.place, Nat.zero_add]
          exact emitTextExact shows cut.symm
  · have here := ended final []
    rw [List.append_nil] at here
    obtain ⟨rest, here⟩ := here
    refine ⟨r, ?_, fun _ => ⟨shows, known, .inr ⟨left, name, inside, ended⟩⟩⟩
    simp only [left, inside, here]
    exact plainExact shows

inductive Meets (final : Bool) : Except ParseError Reader → Except ParseError State → Prop where
  | failed (e : ParseError) : Meets final (.error e) (.error e)
  | held {r : Reader} {s : State} (follows : final = false → r.Follows s) :
      Meets final (.ok r) (.ok s)

theorem takesFollows {taken : Text} (shows : r.Shows s) (takes : Takes s taken e next) :
    r.pos < next.pos ∧ next.pos ≤ r.source.size ∧
      Reader.Follows ⟨r.source, next.pos, next.raw⟩ next := by
  obtain ⟨before, source, place⟩ := shows.source
  have positive := Text.sizePositive takes.nonempty
  have size := showsSize shows
  rw [takes.splits, Text.sizeAppend] at size
  rw [takes.splits, ← List.append_assoc] at source
  have moved : Text.size (before ++ taken) = next.pos := by
    rw [Text.sizeAppend, place, takes.moves]
  have moves := takes.moves
  have pos := shows.pos
  exact ⟨by omega, by omega, ⟨⟨_, source, moved⟩, rfl, shows.short⟩, takes.raw, .inl rfl⟩

theorem drainExact {events : List Event} {last : Except ParseError State}
    (trace : Trace final s events last) (follows : r.Follows s) :
    ∃ ended, r.drain? final = some (events, ended) ∧ Meets final ended last := by
  induction trace generalizing r with
  | @wait s here =>
    obtain ⟨held, same, stays⟩ := stepExact follows final
    rw [here] at same
    refine ⟨.ok held, ?_, .held stays⟩
    rw [drain?, same]
    rfl
  | @failed s e here =>
    obtain ⟨held, same, -⟩ := stepExact follows final
    rw [here] at same
    refine ⟨.error e, ?_, .failed e⟩
    rw [drain?, same]
    rfl
  | @emit s e next events last here tail ih =>
    obtain ⟨taken, takes⟩ := stepTakes here
    obtain ⟨onward, within, next⟩ := takesFollows follows.shows takes
    obtain ⟨held, same, -⟩ := stepExact follows final
    obtain ⟨ended, rest, meets⟩ := ih next
    rw [here] at same
    refine ⟨ended, ?_, meets⟩
    rw [drain?, same]
    simp only [Step.move]
    rw [if_pos ⟨onward, within⟩, rest]
    rfl

theorem writtenFollows (follows : r.Follows s) {chunk : Text}
    (short : r.source.size + chunk.size < Word.size32) :
    Reader.Follows { r with source := r.source ++ chunk } (s.extend chunk) := by
  obtain ⟨⟨⟨before, source, place⟩, pos, _⟩, known, raw⟩ := follows
  refine ⟨⟨⟨before, ?_, place⟩, pos, by rwa [Text.sizeAppend]⟩, known, raw.imp id ?_⟩
  · rw [source, List.append_assoc]
    rfl
  · rintro ⟨left, name, inside, ended⟩
    refine ⟨left, name, inside, fun final more => ?_⟩
    rw [extendPending, List.append_assoc]
    exact ended final (chunk ++ more)

theorem meetsEnds {ended : Except ParseError Reader} {last : Except ParseError State}
    (meets : Meets final ended last) : (ended.map fun _ => ()) = last.map fun _ => () := by
  cases meets <;> rfl

theorem feedExact (follows : r.Follows s) (chunks : List Text)
    (short : r.source.size + Text.size chunks.flatten < Word.size32) :
    r.feed? chunks = some ((s.feed chunks).1, (s.feed chunks).2.map fun _ => ()) := by
  induction chunks generalizing r s with
  | nil =>
    obtain ⟨ended, read, meets⟩ := drainExact (drainTrace true s) follows
    rw [feed?, read, feed, finish, ← meetsEnds meets]
    rfl
  | cons chunk rest ih =>
    rw [List.flatten_cons, Text.sizeAppend, ← Nat.add_assoc] at short
    rcases reading : s.write chunk with ⟨events, last⟩
    have trace : Trace false (s.extend chunk) events last := by
      have trace := drainTrace false (s.extend chunk)
      rwa [show (s.extend chunk).drain false = _ from reading] at trace
    obtain ⟨ended, read, meets⟩ := drainExact trace (writtenFollows follows (by omega))
    obtain ⟨come, reaches, -⟩ := traceReaches trace
    rw [feed?, write?, read]
    cases meets with
    | failed e => rw [feedStopped rest reading]; rfl
    | @held reader next onward =>
      have onward := onward rfl
      have same : next = come := by simpa using reaches.ended
      subst same
      have total := reaches.total
      have size := showsSize onward.shows
      have whole := showsSize follows.shows
      simp only [State.total, extendPos, extendPending, Text.sizeAppend] at total
      have rest := ih onward (by omega)
      rw [feedOnward _ reading]
      simp only [Option.bind_eq_bind, Option.bind_some, rest]

/- Inside of a character there is no outcome. -/
example : (Reader.mk "é<p>" 1 none).feed? [] = none := by decide +kernel

end Run
end Reader
end ComponentFile.Markup
