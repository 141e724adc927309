import ComponentFile.Markup.Attributes

/-! Reading a document that arrives in pieces. A construct that is not complete is held back until
more is written, so that the events do not depend on where the document was cut; only text may
arrive in several events. Inside script and style elements nothing is markup but their end tag. -/
namespace ComponentFile.Markup

structure State where
  pos : Nat
  pending : Text
  raw : Option Text
  deriving DecidableEq, Repr

inductive Step where
  | wait
  | failed (e : ParseError)
  | emit (e : Event) (next : State)
  deriving DecidableEq, Repr

def rawElements : List Text := ["script", "style"]

inductive RawEnd where
  | found (before rest : Text)
  | wait
  | missing
  deriving DecidableEq, Repr

def RawEnd.after (c : Char) : RawEnd → RawEnd
  | .found before rest => .found (c :: before) rest
  | other => other

section After
variable {r : RawEnd} {c : Char}

theorem RawEnd.afterFound {before rest : Text} :
    r.after c = .found before rest ↔ ∃ inner, r = .found inner rest ∧ c :: inner = before := by
  cases r with
  | found inner left =>
    constructor
    · rintro ⟨⟩
      exact ⟨inner, rfl, rfl⟩
    · rintro ⟨_, ⟨⟩, rfl⟩
      rfl
  | wait => simp [RawEnd.after]
  | missing => simp [RawEnd.after]

theorem RawEnd.afterWait : r.after c = .wait ↔ r = .wait := by
  cases r <;> simp [RawEnd.after]

theorem RawEnd.afterMissing : r.after c = .missing ↔ r = .missing := by
  cases r <;> simp [RawEnd.after]

end After

def rawEnd (name : Text) (final : Bool) : Text → RawEnd
  | [] => if final then .missing else .wait
  | c :: rest =>
      if c = '<' ∧ rest.head? = some '/' ∧ Text.lower ((rest.drop 1).take name.length) = name then
        match rest.drop (1 + name.length) with
        | [] => if final then .found [] (c :: rest) else .wait
        | d :: _ =>
            if Text.isBlank d ∨ d = '/' ∨ d = '>' then .found [] (c :: rest)
            else (rawEnd name final rest).after c
      else (rawEnd name final rest).after c

theorem rawEndSplits {name : Text} {final : Bool} {t before rest : Text}
    (h : rawEnd name final t = .found before rest) : before ++ rest = t := by
  induction t generalizing before rest with
  | nil => simp only [rawEnd] at h; split at h <;> contradiction
  | cons c more ih =>
    have later (same : (rawEnd name final more).after c = .found before rest) :
        before ++ rest = c :: more := by
      obtain ⟨inner, found, rfl⟩ := RawEnd.afterFound.mp same
      rw [List.cons_append, ih found]
    simp only [rawEnd] at h
    split at h
    · split at h
      · split at h
        · cases h; rfl
        · contradiction
      · split at h
        · cases h; rfl
        · exact later h
    · exact later h

namespace State

def start : State := ⟨0, [], none⟩

def total (s : State) : Nat := s.pos + s.pending.size

def spanOf (s : State) (taken : Text) : Span := ⟨s.pos, s.pos + taken.size⟩

def moved (s : State) (taken rest : Text) : State := ⟨s.pos + taken.size, rest, none⟩

def awaiting (final : Bool) (s : State) (awaited : Awaited) : Step :=
  if final then .failed ⟨.unexpectedEnd awaited, s.spanOf s.pending⟩ else .wait

def emitText (s : State) (taken rest : Text) : Step := .emit (.text (s.spanOf taken)) (s.moved taken rest)

def emitComment (s : State) (taken rest : Text) : Step :=
  .emit (.comment (s.spanOf taken)) (s.moved taken rest)

/-- A comment ends at its terminator, which may not begin inside the first `opening` characters. -/
def declarationUntil (final : Bool) (s : State) (opening : Nat) (terminator : Text) : Step :=
  match Text.breakOn? terminator (s.pending.drop opening) with
  | some (before, found) =>
      s.emitComment (s.pending.take opening ++ before ++ terminator) (found.drop terminator.length)
  | none => s.awaiting final (.declarationEnd terminator)

def declaration (final : Bool) (s : State) : Step :=
  if "<!--".toList.isPrefixOf s.pending then s.declarationUntil final 4 "-->"
  else if !final && s.pending.isPrefixOf "<!--".toList then .wait
  else s.declarationUntil final 2 ">"

/-- An end tag without a name is dropped like a comment. -/
def endTag (final : Bool) (s : State) : Step :=
  match Text.breakOn? ['>'] s.pending with
  | none => s.awaiting final .endTagEnd
  | some (before, found) =>
      let taken := before ++ ['>']
      let rest := found.drop 1
      let inner := before.drop 2
      if (inner.head?.map Char.isAlpha).getD false then
        let name := inner.takeWhile fun c => !(Text.isBlank c || c = '/')
        .emit (.closed (Text.lower name) (s.spanOf taken)) (s.moved taken rest)
      else s.emitComment taken rest

def endsTagName (c : Char) : Bool := Text.isBlank c || c = '/' || c = '>'

def spoilsTagName (c : Char) : Bool := c = '<' || c = '"' || c = '\'' || c = '='

def startTag (final : Bool) (s : State) : Step :=
  let name := (s.pending.drop 1).takeWhile fun c => !endsTagName c
  let afterName := (s.pending.drop 1).dropWhile fun c => !endsTagName c
  let nameStop := s.pos + 1 + Text.size name
  if afterName.isEmpty then s.awaiting final .startTagEnd
  else if name.any spoilsTagName then .failed ⟨.invalidTagName name, ⟨s.pos + 1, nameStop⟩⟩
  else
    match tagEnd? none afterName with
    | none => s.awaiting final (.namedTagEnd name)
    | some (inside, rest) =>
        match Attributes.read (Token.scan nameStop inside) with
        | .error e => .failed e
        | .ok (attributes, selfClosing) =>
            let taken := '<' :: name ++ inside
            let tag : StartTag := ⟨Text.lower name, attributes, s.spanOf taken, selfClosing⟩
            let raw := if !selfClosing && rawElements.contains tag.name then some tag.name else none
            .emit (.opened tag) { s.moved taken rest with raw := raw }

def construct (final : Bool) (s : State) (rest : Text) : Step :=
  match rest with
  | [] => if final then s.emitText ['<'] [] else .wait
  | c :: _ =>
      if c = '!' ∨ c = '?' then s.declaration final
      else if c = '/' then s.endTag final
      else if c.isAlpha then s.startTag final
      else s.emitText ['<'] rest

def plain (final : Bool) (s : State) : Step :=
  match s.pending with
  | [] => .wait
  | c :: rest =>
      if c = '<' then s.construct final rest
      else s.emitText ((c :: rest).takeWhile (· ≠ '<')) ((c :: rest).dropWhile (· ≠ '<'))

/-- The next event, if what is pending decides it. `final` says that nothing more will come. -/
def step (final : Bool) (s : State) : Step :=
  match s.raw with
  | none => s.plain final
  | some name =>
      match rawEnd name final s.pending with
      | .found [] _ => s.plain final
      | .found (c :: before) rest => s.emitText (c :: before) rest
      | .wait => .wait
      | .missing => .failed ⟨.unclosedTag name, s.spanOf s.pending⟩

theorem awaitingEmitsNothing {final : Bool} {s next : State} {awaited : Awaited} {e : Event} :
    s.awaiting final awaited ≠ .emit e next := by
  unfold awaiting
  split <;> simp

theorem declarationShortens {final : Bool} {s next : State} {opening : Nat} {terminator : Text}
    {e : Event} (nonempty : terminator ≠ [])
    (h : s.declarationUntil final opening terminator = .emit e next) :
    next.pending.length < s.pending.length := by
  unfold declarationUntil at h
  split at h
  · rename_i before found here
    cases h
    have splits := congrArg List.length (Text.breakOnSplits here)
    have starts := (List.isPrefixOf_iff_prefix.mp (Text.breakOnStarts here)).length_le
    have positive := List.length_pos_iff.mpr nonempty
    simp only [moved, List.length_append, List.length_drop] at splits ⊢
    omega
  · exact absurd h awaitingEmitsNothing

theorem endTagShortens {final : Bool} {s next : State} {e : Event}
    (h : s.endTag final = .emit e next) : next.pending.length < s.pending.length := by
  unfold endTag at h
  split at h
  · exact absurd h awaitingEmitsNothing
  · rename_i before found here
    have splits := congrArg List.length (Text.breakOnSplits here)
    have starts := (List.isPrefixOf_iff_prefix.mp (Text.breakOnStarts here)).length_le
    simp only [List.length_append, List.length_singleton] at splits starts
    simp only at h
    split at h
    all_goals
      cases h
      simp only [moved, List.length_drop]
      omega

theorem startTagShortens {final : Bool} {s next : State} {e : Event}
    (h : s.startTag final = .emit e next) : next.pending.length < s.pending.length := by
  unfold startTag at h
  simp only at h
  split at h
  · exact absurd h awaitingEmitsNothing
  · rename_i nonempty
    split at h
    · contradiction
    · split at h
      · exact absurd h awaitingEmitsNothing
      · rename_i inside rest here
        split at h
        · contradiction
        · cases h
          have splits := congrArg List.length (tagEndSplits here)
          have shorter := (List.dropWhile_sublist (fun c => !endsTagName c)
            (l := s.pending.drop 1)).length_le
          simp only [List.length_append, List.length_drop] at splits shorter
          have : s.pending ≠ [] := by
            intro blank
            simp [blank] at nonempty
          have := List.length_pos_iff.mpr this
          simp only [moved]
          omega

theorem constructShortens {final : Bool} {s next : State} {c : Char} {rest : Text} {e : Event}
    (here : s.pending = c :: rest) (h : s.construct final rest = .emit e next) :
    next.pending.length < s.pending.length := by
  unfold construct at h
  split at h
  · split at h
    · cases h; simp [moved, here]
    · contradiction
  · split at h
    · unfold declaration at h
      split at h
      · exact declarationShortens (by simp) h
      · split at h
        · contradiction
        · exact declarationShortens (by simp) h
    · split at h
      · exact endTagShortens h
      · split at h
        · exact startTagShortens h
        · cases h; simp [moved, here]

theorem plainShortens {final : Bool} {s next : State} {e : Event}
    (h : s.plain final = .emit e next) : next.pending.length < s.pending.length := by
  unfold plain at h
  split at h
  · contradiction
  · rename_i c rest here
    split at h
    · exact constructShortens here h
    · rename_i other
      cases h
      simp only [moved, here, List.dropWhile_cons, List.length_cons]
      have := (List.dropWhile_sublist (fun d => decide (d ≠ '<')) (l := rest)).length_le
      simp only [ne_eq, other, not_false_eq_true, decide_true, if_true]
      exact Nat.lt_succ_of_le this

theorem stepShortens {final : Bool} {s next : State} {e : Event}
    (h : s.step final = .emit e next) : next.pending.length < s.pending.length := by
  unfold step at h
  split at h
  · exact plainShortens h
  · split at h
    · exact plainShortens h
    · rename_i c before rest here
      cases h
      have splits := congrArg List.length (rawEndSplits here)
      simp only [List.length_append, List.length_cons, moved] at splits ⊢
      omega
    · contradiction
    · contradiction

def drain (final : Bool) (s : State) : List Event × Except ParseError State :=
  match found : s.step final with
  | .wait => ([], .ok s)
  | .failed e => ([], .error e)
  | .emit e next =>
      have := stepShortens found
      let (events, last) := drain final next
      (e :: events, last)
termination_by s.pending.length

def write (s : State) (chunk : Text) : List Event × Except ParseError State :=
  drain false { s with pending := s.pending ++ chunk }

def finish (s : State) : List Event × Except ParseError State := drain true s

def feed (s : State) : List Text → List Event × Except ParseError State
  | [] => s.finish
  | chunk :: rest =>
      match s.write chunk with
      | (events, .error e) => (events, .error e)
      | (events, .ok next) =>
          let (more, last) := feed next rest
          (events ++ more, last)

end State

def events (document : Text) : Except ParseError (List Event) :=
  match State.start.feed [document] with
  | (found, .ok _) => .ok found
  | (_, .error e) => .error e

end ComponentFile.Markup
