import ComponentFile.Proofs.Markup.Extension
import ComponentFile.Proofs.Markup.RawText
import ComponentFile.Proofs.Markup.Tiling

/-! Where an event or an error comes from: the one step that answers it, with what stood before that
step and how the reading goes on behind it. An opened tag comes from a start tag, and so does every
error that is not brought by the end of input. -/
namespace ComponentFile.Markup

def Fault.OfEnd : Fault → Prop
  | .unexpectedEnd _ | .unclosedTag _ => True
  | .invalidAttribute _ | .invalidTagName _ => False

namespace State

theorem traceOrigin {final : Bool} {s : State} {front later : List Event} {e : Event}
    {last : Except ParseError State} (h : Trace final s (front ++ e :: later) last) :
    ∃ (here next : State) (before : Text), here.step final = .emit e next ∧
      Trace final next later last ∧ s.pending = before ++ here.pending ∧
      s.pos + before.size = here.pos := by
  induction front generalizing s with
  | nil =>
    cases h with
    | emit here tail => exact ⟨s, _, [], here, tail, rfl, rfl⟩
  | cons first rest ih =>
    cases h with
    | emit here tail =>
      obtain ⟨taken, takes⟩ := stepTakes here
      obtain ⟨origin, next, before, emits, onward, splits, place⟩ := ih tail
      refine ⟨origin, next, taken ++ before, emits, onward, ?_, ?_⟩
      · rw [takes.splits, splits, List.append_assoc]
      · rw [Text.sizeAppend, ← Nat.add_assoc, ← takes.moves, place]

theorem traceFailure {final : Bool} {s : State} {events : List Event}
    {last : Except ParseError State} {e : ParseError} (h : Trace final s events last)
    (failed : last = .error e) : ∃ here : State, here.step final = .failed e := by
  induction h with
  | wait here => contradiction
  | failed here => cases failed; exact ⟨_, here⟩
  | emit here tail ih => exact ih failed

/- `here` is where the reading of `chunks` from `s` on delivers `e`: `before` has been read then, and
`next` reads `more` behind the event. -/
structure Delivers (s : State) (chunks : List Text) (e : Event) (later : List Event)
    (last : Except ParseError State) (here next : State) (before : Text) (more : List Text) :
    Prop where
  emits : ∃ final, here.step final = .emit e next
  onward : next.feed more = (later, last)
  splits : s.pending ++ chunks.flatten = before ++ here.pending ++ more.flatten
  place : s.pos + before.size = here.pos

section Feed
variable {s : State} {chunks : List Text} {front later : List Event} {e : Event}
  {last : Except ParseError State}

/- In the middle of a write: the rest of it is what a write of nothing delivers. -/
theorem writeNothing (s : State) : s.write [] = s.drain false := by
  unfold write
  rw [List.append_nil]

theorem writeFront {chunk : Text} {events : List Event} {held : State}
    (reading : s.write chunk = (events, .ok held)) :
    ∃ front, s.pending ++ chunk = front ++ held.pending ∧ s.pos + front.size = held.pos := by
  obtain ⟨last, reaches, _⟩ := traceReaches (drainTrace false (s.extend chunk))
  change Reaches s.pos (s.pending ++ chunk) (s.write chunk).1 (s.write chunk).2 last at reaches
  rw [reading] at reaches
  have same : held = last := by simpa using reaches.ended
  rw [same]
  exact reachesFront reaches

theorem deliversInside {chunk : Text} {rest : List Text} {ending : List Event}
    {outcome : Except ParseError State} (written : s.write chunk = (front ++ e :: ending, outcome))
    (goesOn : ∀ next : State, next.write [] = (ending, outcome) →
      next.feed ([] :: rest) = (later, last)) :
    ∃ here next before more, Delivers s (chunk :: rest) e later last here next before more := by
  have trace : Trace false (s.extend chunk) (s.write chunk).1 (s.write chunk).2 :=
    drainTrace false _
  rw [written] at trace
  obtain ⟨here, next, before, emits, onward, splits, place⟩ := traceOrigin trace
  refine ⟨here, next, before, [] :: rest, ⟨false, emits⟩, ?_, ?_, place⟩
  · apply goesOn
    rw [writeNothing, traceDrain onward]
  · rw [List.flatten_cons, List.flatten_cons, List.nil_append, ← splits, ← List.append_assoc]
    rfl

theorem deliversBehind {chunk : Text} {rest more : List Text} {events : List Event}
    {held here next : State} {before : Text} (written : s.write chunk = (events, .ok held))
    (delivers : Delivers held rest e later last here next before more) :
    ∃ before, Delivers s (chunk :: rest) e later last here next before more := by
  obtain ⟨emits, onward, splits, place⟩ := delivers
  obtain ⟨taken, whole, moved⟩ := writeFront written
  refine ⟨taken ++ before, emits, onward, ?_, ?_⟩
  · rw [List.flatten_cons, ← List.append_assoc, whole, List.append_assoc, splits]
    simp only [List.append_assoc]
  · rw [Text.sizeAppend, ← Nat.add_assoc, moved, place]

theorem feedOrigin (read : s.feed chunks = (front ++ e :: later, last)) :
    ∃ here next before more, Delivers s chunks e later last here next before more := by
  induction chunks generalizing s front with
  | nil =>
    have trace := drainTrace true s
    change s.drain true = _ at read
    rw [read] at trace
    obtain ⟨here, next, before, emits, onward, splits, place⟩ := traceOrigin trace
    exact ⟨here, next, before, [], ⟨true, emits⟩, traceDrain onward, by simp [splits], place⟩
  | cons chunk rest ih =>
    rcases reading : s.write chunk with ⟨events, outcome⟩
    cases outcome with
    | error failure =>
      rw [feedStopped rest reading] at read
      cases read
      exact deliversInside reading fun next written => feedStopped rest written
    | ok held =>
      rw [feedOnward rest reading] at read
      obtain ⟨both, ended⟩ := Prod.mk.inj read
      have behind (between : List Event) (tail : (held.feed rest).1 = between ++ e :: later) :
          ∃ here next before more,
            Delivers s (chunk :: rest) e later last here next before more := by
        obtain ⟨here, next, _, more, delivers⟩ := ih (Prod.ext tail ended)
        obtain ⟨before, whole⟩ := deliversBehind reading delivers
        exact ⟨here, next, before, more, whole⟩
      rcases List.append_eq_append_iff.mp both with ⟨between, _, tail⟩ | ⟨between, rfl, tail⟩
      · exact behind between tail
      · cases between with
        | nil => exact behind [] tail.symm
        | cons first ending =>
          rw [List.cons_append] at tail
          obtain ⟨rfl, rfl⟩ := List.cons.inj tail
          exact deliversInside reading fun next written => by rw [feedOnward rest written, ended]

theorem feedFailure {failure : ParseError} (failed : (s.feed chunks).2 = .error failure) :
    ∃ (here : State) (final : Bool), here.step final = .failed failure := by
  induction chunks generalizing s with
  | nil =>
    obtain ⟨here, stops⟩ := traceFailure (drainTrace true s) failed
    exact ⟨here, true, stops⟩
  | cons chunk rest ih =>
    rcases reading : s.write chunk with ⟨events, outcome⟩
    cases outcome with
    | error other =>
      rw [feedStopped rest reading] at failed
      have stopped : (s.write chunk).2 = .error failure := by rw [reading]; exact failed
      obtain ⟨here, stops⟩ := traceFailure (drainTrace false (s.extend chunk)) stopped
      exact ⟨here, false, stops⟩
    | ok held =>
      rw [feedOnward rest reading] at failed
      exact ih failed

end Feed

def OfStartTag (final : Bool) : Step → Prop
  | .emit (.opened _) _ => True
  | .failed e => final = false ∨ ¬ e.fault.OfEnd
  | _ => False

section StartTags
variable {final : Bool} {s next : State} {rest : Text} {e : ParseError} {tag : StartTag}

theorem awaitingOther {awaited : Awaited} : ¬ OfStartTag final (s.awaiting final awaited) := by
  unfold awaiting
  split <;> simp_all [OfStartTag, Fault.OfEnd]

theorem declarationUntilOther {opening : Nat} {terminator : Text} :
    ¬ OfStartTag final (s.declarationUntil final opening terminator) := by
  unfold declarationUntil
  split
  · exact id
  · exact awaitingOther

theorem declarationOther : ¬ OfStartTag final (s.declaration final) := by
  unfold declaration
  split
  · exact declarationUntilOther
  · split
    · exact id
    · exact declarationUntilOther

theorem endTagOther : ¬ OfStartTag final (s.endTag final) := by
  unfold endTag
  split
  · exact awaitingOther
  · simp only
    split <;> exact id

theorem constructStartTag (h : OfStartTag final (s.construct final rest)) :
    s.construct final rest = s.startTag final ∧ ∃ c more, rest = c :: more ∧ c.isAlpha = true := by
  unfold construct at h ⊢
  split at h
  · split at h <;> exact absurd h id
  · rename_i c more
    split at h
    · exact absurd h declarationOther
    · rename_i noMark
      split at h
      · exact absurd h endTagOther
      · rename_i noSlash
        split at h
        · rename_i letter
          simp only [if_neg noMark, if_neg noSlash, if_pos letter]
          exact ⟨trivial, c, more, rfl, letter⟩
        · exact absurd h id

theorem plainStartTag (h : OfStartTag final (s.plain final)) :
    s.plain final = s.startTag final ∧
      ∃ c more, s.pending = '<' :: c :: more ∧ c.isAlpha = true := by
  unfold plain at h ⊢
  split at h
  · exact absurd h id
  · rename_i c rest here
    split at h
    · rename_i angle
      subst angle
      obtain ⟨same, c, more, rfl, letter⟩ := constructStartTag h
      simp only [here, if_true]
      exact ⟨same, c, more, rfl, letter⟩
    · exact absurd h id

theorem stepStartTag (h : OfStartTag final (s.step final)) :
    s.step final = s.startTag final ∧
      ∃ c more, s.pending = '<' :: c :: more ∧ c.isAlpha = true := by
  unfold step at h ⊢
  split
  · rename_i raw
    simp only [raw] at h
    exact plainStartTag h
  · rename_i name raw
    simp only [raw] at h
    split at h
    · exact plainStartTag h
    · exact absurd h id
    · exact absurd h id
    · -- an element can be found without its end tag only at the end of input
      rename_i missing
      rcases h with early | other
      · rw [early] at missing
        exact absurd missing rawEndNotMissing
      · exact absurd trivial other

structure Opens (s : State) (tag : StartTag) (next : State) (name inside : Text) : Prop where
  pending : s.pending = '<' :: name ++ inside ++ next.pending
  whole : ∀ c ∈ name, endsTagName c = false
  named : tag.name = Text.lower name
  ends : tagEnd? none (inside ++ next.pending) = some (inside, next.pending)
  read : Attributes.read (Token.scan (s.pos + 1 + Text.size name) inside) =
    .ok (tag.attributes, tag.selfClosing)
  span : tag.span = s.spanOf ('<' :: name ++ inside)
  moves : next.pos = tag.span.stop
  raw : next.raw =
    if !tag.selfClosing && rawElements.contains tag.name then some tag.name else none

theorem stepOpens (h : s.step final = .emit (.opened tag) next) :
    ∃ name inside, Opens s tag next name inside ∧
      (name.head?.map Char.isAlpha).getD false = true ∧ ∀ c ∈ name, spoilsTagName c = false := by
  have inTag : OfStartTag final (s.step final) := by
    rw [h]
    trivial
  obtain ⟨same, first, more, angle, letter⟩ := stepStartTag inTag
  rw [h] at same
  have head : ((first :: more).takeWhile fun c => !endsTagName c).head? = some first := by
    have inName : endsTagName first = false := alphaInTagName letter
    simp [inName]
  generalize first :: more = rest at angle head
  have cut := List.takeWhile_append_dropWhile (p := fun c => !endsTagName c) (l := rest)
  have whole : ∀ c ∈ rest.takeWhile fun c => !endsTagName c, endsTagName c = false := by
    intro c member
    simpa using List.mem_takeWhile_imp member
  unfold startTag at same
  simp only [angle, List.drop_succ_cons, List.drop_zero] at same
  generalize rest.takeWhile (fun c => !endsTagName c) = name at cut whole same head
  generalize rest.dropWhile (fun c => !endsTagName c) = afterName at cut same
  split at same
  · exact absurd same.symm awaitingEmitsNothing
  · split at same
    · contradiction
    · rename_i sound
      split at same
      · exact absurd same.symm awaitingEmitsNothing
      · rename_i inside after ends
        split at same
        · contradiction
        · rename_i attributes selfClosing read
          cases same
          have splits := tagEndSplits ends
          refine ⟨name, inside, ⟨?_, whole, rfl, ?_, read, rfl, rfl, rfl⟩, ?_, ?_⟩
          · simp [angle, moved, ← cut, ← splits]
          · simpa [moved, splits] using ends
          · simp [head, letter]
          · simpa using sound

theorem opensStartTag {name inside : Text} (opens : Opens s tag next name inside)
    (sound : ∀ c ∈ name, spoilsTagName c = false) (stops : ∃ c ∈ inside.head?, endsTagName c = true) :
    s.startTag final = .emit (.opened tag) next := by
  have whole : ∀ c ∈ name, (!endsTagName c) = true := by simpa using opens.whole
  have clean : name.any spoilsTagName = false := by simpa using sound
  have behind : s.pending.drop 1 = name ++ (inside ++ next.pending) := by simp [opens.pending]
  obtain ⟨c, here, stop⟩ := stops
  obtain ⟨rest, cut⟩ := List.head?_eq_some_iff.mp here
  have ended : (inside ++ next.pending).takeWhile (fun c => !endsTagName c) = [] ∧
      (inside ++ next.pending).dropWhile (fun c => !endsTagName c) = inside ++ next.pending := by
    simp [cut, stop]
  have nonempty : (inside ++ next.pending).isEmpty = false := by simp [cut]
  have place : s.pos + Text.size ('<' :: name ++ inside) = next.pos := by
    rw [opens.moves, opens.span]
    rfl
  unfold startTag
  simp only [behind, List.takeWhile_append_of_pos whole, List.dropWhile_append_of_pos whole, ended.1,
    ended.2, List.append_nil, nonempty, clean, opens.ends, opens.read, Bool.false_eq_true, if_false]
  rw [← opens.named, ← opens.span, ← opens.raw]
  change Step.emit (.opened tag)
    ⟨s.pos + Text.size ('<' :: name ++ inside), next.pending, next.raw⟩ = _
  rw [place]

theorem opensStep {name inside : Text} (opens : Opens s tag next name inside) (raw : s.raw = none)
    (letter : (name.head?.map Char.isAlpha).getD false = true)
    (sound : ∀ c ∈ name, spoilsTagName c = false)
    (stops : ∃ c ∈ inside.head?, endsTagName c = true) : s.step final = .emit (.opened tag) next := by
  obtain ⟨c, rest, rfl⟩ : ∃ c rest, name = c :: rest := by
    cases name with
    | nil => contradiction
    | cons c rest => exact ⟨c, rest, rfl⟩
  have letter : c.isAlpha = true := letter
  have other (d : Char) (mark : d.isAlpha = false) : c ≠ d := by
    rintro rfl
    rw [letter] at mark
    contradiction
  have first : s.pending = '<' :: c :: (rest ++ inside ++ next.pending) := by simp [opens.pending]
  simp only [step, raw, plain, first, if_true, construct, other '!' (by decide),
    other '?' (by decide), other '/' (by decide), or_self, if_false, letter]
  exact opensStartTag opens sound stops

theorem deliveredTag {chunks more : List Text} {later : List Event}
    {last : Except ParseError State} {here : State} {before : Text}
    (delivers : Delivers start chunks (.opened tag) later last here next before more) :
    ∃ name inside, Opens here tag next name inside ∧
      chunks.flatten = before ++ ('<' :: name ++ inside) ++ (next.pending ++ more.flatten) ∧
      tag.span = ⟨before.size, before.size + Text.size ('<' :: name ++ inside)⟩ := by
  obtain ⟨final, emits⟩ := delivers.emits
  obtain ⟨name, inside, opens, _⟩ := stepOpens emits
  have splits := delivers.splits
  have place : before.size = here.pos := by simpa [start] using delivers.place
  rw [opens.pending] at splits
  refine ⟨name, inside, opens, by simpa [start] using splits, ?_⟩
  rw [opens.span, place]
  rfl

theorem startTagFails (h : s.startTag final = .failed e) :
    (final = true ∧ e.fault.OfEnd) ∨ (∃ name, e.fault = .invalidTagName name) ∨
      ∃ pos t inside rest, tagEnd? none t = some (inside, rest) ∧
        Attributes.read (Token.scan pos inside) = .error e := by
  have awaits {awaited : Awaited} (waits : s.awaiting final awaited = .failed e) :
      final = true ∧ e.fault.OfEnd := by
    unfold awaiting at waits
    split at waits
    · rename_i ended
      cases waits
      exact ⟨ended, trivial⟩
    · contradiction
  unfold startTag at h
  simp only at h
  split at h
  · exact .inl (awaits h)
  · split at h
    · cases h
      exact .inr (.inl ⟨_, rfl⟩)
    · split at h
      · exact .inl (awaits h)
      · rename_i inside after ends
        split at h
        · rename_i failure read
          cases h
          exact .inr (.inr ⟨_, _, inside, after, ends, read⟩)
        · contradiction

theorem stepFault {fault : AttributeFault} (h : s.step final = .failed e)
    (blames : e.fault = .invalidAttribute fault) :
    ∃ pos t inside rest, tagEnd? none t = some (inside, rest) ∧
      Attributes.read (Token.scan pos inside) = .error e := by
  have inTag : OfStartTag final (s.step final) := by
    rw [h]
    exact .inr (by rw [blames]; exact id)
  have same := (stepStartTag inTag).1.symm.trans h
  rcases startTagFails same with ⟨_, ofEnd⟩ | ⟨name, named⟩ | read
  · rw [blames] at ofEnd
    contradiction
  · rw [blames] at named
    contradiction
  · exact read

end StartTags

end State

end ComponentFile.Markup
