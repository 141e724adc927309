import ComponentFile.Proofs.Markup.Chunking
import ComponentFile.Proofs.Markup.Held
import ComponentFile.Proofs.Markup.Shift
import ComponentFile.Proofs.Markup.Tiling

/-! Documents one after the other. A document that reads without an error leaves nothing behind but,
at most, an angle at its end, and what follows is read as if it stood alone. -/
namespace ComponentFile.Markup

def Event.isText : Event → Bool
  | .text _ => true
  | _ => false

def withoutText (events : List Event) : List Event := events.filter (!·.isText)

theorem withoutTextTag (tag : StartTag) (events : List Event) :
    withoutText (.opened tag :: events) = .opened tag :: withoutText events := rfl

theorem withoutTextAppend (a b : List Event) :
    withoutText (a ++ b) = withoutText a ++ withoutText b := List.filter_append a b

theorem withoutTextShift (n : Nat) (events : List Event) :
    withoutText (events.map (Event.shift n)) = (withoutText events).map (Event.shift n) := by
  have kept : (fun e : Event => !e.isText) ∘ Event.shift n = fun e => !e.isText := by
    funext e
    cases e <;> rfl
  unfold withoutText
  rw [List.filter_map, kept]

theorem withoutTextGlue (a : Span) (events : List Event) :
    withoutText (glueText a events) = withoutText events := by
  cases events with
  | nil => rfl
  | cons e rest =>
    cases e with
    | text b =>
      simp only [glueText]
      split <;> rfl
    | opened tag => rfl
    | closed name span => rfl
    | comment span => rfl

theorem withoutTextJoin (events : List Event) : withoutText (joinText events) = withoutText events := by
  induction events with
  | nil => rfl
  | cons e rest ih =>
    cases e with
    | text a => rw [joinText, withoutTextGlue, ih]; rfl
    | opened tag => exact congrArg (Event.opened tag :: ·) ih
    | closed name span => exact congrArg (Event.closed name span :: ·) ih
    | comment span => exact congrArg (Event.comment span :: ·) ih

theorem alikeTags {a b : Reading} (h : Alike a b) : withoutText a.1 = withoutText b.1 := by
  rw [← withoutTextJoin, h.1, withoutTextJoin]

namespace State

theorem writeHeld {a : Text} {found : List Event} {last : State}
    (read : start.feed [a] = (found, .ok last)) :
    ∃ events held, start.write a = (events, .ok held) ∧ held.raw = none ∧ held.total = a.size ∧
      found = events ++ (held.drain true).1 ∧
      (held.pending = [] ∨ held.pending = ['<'] ∧ a.getLast? = some '<') := by
  have trace := drainTrace false (start.extend a)
  obtain ⟨held, reaches, waits⟩ := traceReaches trace
  change Reaches 0 a (start.write a).1 (start.write a).2 held at reaches
  change (start.write a).2 = .ok held → _ at waits
  have known (ended : (start.write a).2 = .ok held) : held.RawKnown :=
    traceRawKnown trace (by simp [RawKnown, start]) ended
  rcases written : start.write a with ⟨events, outcome⟩
  rw [written] at reaches waits known
  rcases reaches.ended with ok | ⟨e, failed, _⟩
  · change outcome = .ok held at ok
    subst ok
    rw [feedOnward [] written] at read
    obtain ⟨same, ended⟩ := Prod.mk.inj read
    obtain ⟨raw, pending⟩ := heldAtEnd (known rfl) (waits rfl) (Prod.ext rfl ended)
    refine ⟨events, held, rfl, raw, by simpa using reaches.total, same.symm, ?_⟩
    rcases pending with empty | angle
    · exact .inl empty
    · obtain ⟨front, splits, _⟩ := reachesFront reaches
      refine .inr ⟨angle, ?_⟩
      rw [splits, angle, List.getLast?_concat]
  · change outcome = .error e at failed
    subst failed
    rw [feedStopped [] written] at read
    cases read

theorem emptyDrain {s : State} (empty : s.pending = []) (raw : s.raw = none) :
    s.drain true = ([], .ok s) := by
  apply drainWait
  simp [step, plain, raw, empty]

theorem lastDrain {s next : State} {e : Event} (here : s.step true = .emit e next)
    (empty : next.pending = []) (raw : next.raw = none) : s.drain true = ([e], .ok next) := by
  rw [drainEmit here, emptyDrain empty raw]

theorem angleStep {s : State} {rest : Text} (raw : s.raw = none) (here : s.pending = '<' :: rest)
    (lone : rest = [] ∨ rest.head? = some '<') : s.step true = s.emitText ['<'] rest := by
  simp only [step, plain, raw, here, if_true]
  rcases lone with rfl | head
  · rfl
  · obtain ⟨more, rfl⟩ := List.head?_eq_some_iff.mp head
    rw [construct, if_neg (by decide), if_neg (by decide), if_neg (by decide)]

theorem resumeHeld {held : State} {n : Nat} (b : Text) (raw : held.raw = none)
    (total : held.total = n)
    (pending : held.pending = [] ∨ held.pending = ['<'] ∧ (b = [] ∨ b.head? = some '<')) :
    withoutText ((held.extend b).drain true).1 =
        withoutText (((start.extend b).shift n).drain true).1 ∧
      ((held.extend b).drain true).2 = (((start.extend b).shift n).drain true).2 := by
  obtain ⟨pos, waiting, mode⟩ := held
  simp only at raw pending
  subst raw
  rcases pending with rfl | ⟨rfl, lone⟩
  · have same : (State.extend ⟨pos, [], none⟩ b) = (start.extend b).shift n := by
      simp only [State.total, Text.sizeNil] at total
      subst total
      rfl
    rw [same]
    exact ⟨rfl, rfl⟩
  · have one : '<'.utf8Size = 1 := by decide
    have text : (State.extend ⟨pos, ['<'], none⟩ b).step true =
        (State.extend ⟨pos, ['<'], none⟩ b).emitText ['<'] b := angleStep rfl rfl lone
    have same : (State.extend ⟨pos, ['<'], none⟩ b).moved ['<'] b = (start.extend b).shift n := by
      simp only [State.total, Text.sizeCons, Text.sizeNil, one] at total
      subst total
      rfl
    rw [drainEmit text, same]
    exact ⟨rfl, rfl⟩

theorem feedBehind {a b : Text} {found : List Event} {last : State}
    (read : start.feed [a] = (found, .ok last))
    (seam : a.getLast? ≠ some '<' ∨ b = [] ∨ b.head? = some '<') :
    withoutText (start.feed [a ++ b]).1 = withoutText found ++
        (withoutText (start.feed [b]).1).map (Event.shift a.size) ∧
      (start.feed [a ++ b]).2 = shiftResult a.size (State.shift a.size) (start.feed [b]).2 := by
  obtain ⟨events, held, written, raw, total, rfl, pending⟩ := writeHeld read
  have whole : Alike (start.feed [a ++ b]) (start.feed [a, b]) := by
    have one := feedAlike start [a ++ b]
    have two := feedAlike start [a, b]
    simp only [List.flatten_cons, List.flatten_nil, List.append_nil] at one two
    exact one.trans two.symm
  rw [feedOnward [b] written] at whole
  have onward : Alike (held.feed [b]) ((held.extend b).drain true) := by
    simpa using feedAlike held [b]
  have alone : Alike (start.feed [b]) ((start.extend b).drain true) := by
    simpa using feedAlike start [b]
  have meets : held.pending = [] ∨ held.pending = ['<'] ∧ (b = [] ∨ b.head? = some '<') := by
    rcases pending with empty | ⟨angle, ends⟩
    · exact .inl empty
    · exact .inr ⟨angle, seam.resolve_left (absurd ends)⟩
  have nothing : withoutText (held.drain true).1 = [] := by
    rcases pending with empty | ⟨angle, _⟩
    · rw [emptyDrain empty raw]; rfl
    · rw [lastDrain (angleStep raw angle (.inl rfl)) rfl rfl]
      rfl
  obtain ⟨tags, ended⟩ := resumeHeld b raw total meets
  rw [drainShift] at tags ended
  constructor
  · rw [alikeTags whole, withoutTextAppend, withoutTextAppend, nothing, List.append_nil,
      alikeTags onward, tags, withoutTextShift, alikeTags alone]
  · rw [whole.2, onward.2, ended, alone.2]

end State

theorem eventsOfDrain {document : Text} {found : List Event} {last : State}
    (read : (State.start.extend document).drain true = (found, .ok last)) :
    ∃ whole, events document = .ok whole ∧ withoutText whole = withoutText found := by
  have alike := State.feedAlike State.start [document]
  rw [List.flatten_singleton, read] at alike
  unfold events
  generalize State.start.feed [document] = fed at alike
  obtain ⟨whole, outcome⟩ := fed
  have ended : outcome = .ok last := alike.2
  subst ended
  exact ⟨whole, rfl, alikeTags alike⟩

theorem eventsBehind {a b : Text} {found : List Event} (read : events a = .ok found)
    (seam : a.getLast? ≠ some '<' ∨ b = [] ∨ b.head? = some '<') :
    (∀ more, events b = .ok more → ∃ whole, events (a ++ b) = .ok whole ∧
        withoutText whole = withoutText found ++ (withoutText more).map (Event.shift a.size)) ∧
      ∀ e, events b = .error e → events (a ++ b) = .error (e.shift a.size) := by
  unfold events at read
  split at read
  · rename_i found last fed
    cases read
    obtain ⟨tags, ended⟩ := State.feedBehind fed seam
    unfold events
    generalize State.start.feed [b] = second at tags ended ⊢
    generalize State.start.feed [a ++ b] = both at tags ended ⊢
    obtain ⟨more, outcome⟩ := second
    obtain ⟨whole, result⟩ := both
    simp only at tags ended
    subst ended
    cases outcome with
    | ok last => exact ⟨by rintro _ ⟨⟩; exact ⟨whole, rfl, tags⟩, by simp⟩
    | error e => exact ⟨by simp, by rintro _ ⟨⟩; rfl⟩
  · contradiction

end ComponentFile.Markup
