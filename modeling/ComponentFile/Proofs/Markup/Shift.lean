import ComponentFile.Proofs.Markup.Tokens
import ComponentFile.Proofs.Markup.Trace

/-! Reading does not depend on where the text stands: from a place `n` bytes further on it delivers
the same events and ends with the same error, all of them `n` bytes further on. -/
namespace ComponentFile

def Span.shift (n : Nat) (s : Span) : Span := ⟨n + s.start, n + s.stop⟩

@[simp] theorem Span.shiftStart (n : Nat) (s : Span) : (s.shift n).start = n + s.start := rfl

@[simp] theorem Span.shiftStop (n : Nat) (s : Span) : (s.shift n).stop = n + s.stop := rfl

namespace Markup

def Token.shift (n : Nat) (t : Token) : Token := { t with span := t.span.shift n }

@[simp] theorem Token.shiftKind (n : Nat) (t : Token) : (t.shift n).kind = t.kind := rfl

@[simp] theorem Token.shiftSpan (n : Nat) (t : Token) : (t.shift n).span = t.span.shift n := rfl

@[simp] theorem Token.shiftText (n : Nat) (t : Token) : (t.shift n).text = t.text := rfl

def Attribute.shift (n : Nat) (a : Attribute) : Attribute := { a with span := a.span.shift n }

def StartTag.shift (n : Nat) (t : StartTag) : StartTag :=
  { t with attributes := t.attributes.map (Attribute.shift n), span := t.span.shift n }

def Event.shift (n : Nat) : Event → Event
  | .opened tag => .opened (tag.shift n)
  | .closed name span => .closed name (span.shift n)
  | .text span => .text (span.shift n)
  | .comment span => .comment (span.shift n)

def ParseError.shift (n : Nat) (e : ParseError) : ParseError := { e with span := e.span.shift n }

def shiftResult {α : Type} (n : Nat) (f : α → α) : Except ParseError α → Except ParseError α
  | .error e => .error (e.shift n)
  | .ok a => .ok (f a)

theorem Token.scansShift {pos : Nat} {t : Text} {tokens : List Token} (n : Nat)
    (h : Scans pos t tokens) : Scans (n + pos) t (tokens.map (Token.shift n)) := by
  induction h with
  | done pos => exact .done _
  | blank here tail ih =>
    rw [← Nat.add_assoc] at ih
    exact .blank here ih
  | @token pos c rest kind text after tokens solid here tail ih =>
    rw [← Nat.add_assoc] at ih
    have token : Token.shift n ⟨kind, ⟨pos, pos + text.size⟩, text⟩ =
        ⟨kind, ⟨n + pos, n + pos + text.size⟩, text⟩ := by
      simp [Token.shift, Span.shift, Nat.add_assoc]
    rw [List.map_cons, token]
    exact .token solid here ih

theorem Token.scanShift (n pos : Nat) (t : Text) :
    scan (n + pos) t = (scan pos t).map (Token.shift n) :=
  scansScan (scansShift n (scanScans pos t))

namespace Attributes

theorem glueShift (n stop : Nat) (ts : List Token) :
    glue (n + stop) (ts.map (Token.shift n)) =
      ((glue stop ts).1, n + (glue stop ts).2.1, (glue stop ts).2.2.map (Token.shift n)) := by
  induction ts generalizing stop with
  | nil => rfl
  | cons t rest ih =>
    have place : (n + t.span.start = n + stop) = (t.span.start = stop) := by simp
    simp only [List.map_cons, glue, Token.shiftKind, Token.shiftSpan, Token.shiftText,
      Span.shiftStart, Span.shiftStop, place, ih]
    split
    · rfl
    · rfl

def shiftValue (n : Nat) (v : Text × Nat × List Token) : Text × Nat × List Token :=
  (v.1, n + v.2.1, v.2.2.map (Token.shift n))

theorem valueShift (n : Nat) (name : Token) (ts : List Token) :
    value (name.shift n) (ts.map (Token.shift n)) = shiftResult n (shiftValue n) (value name ts) := by
  cases ts with
  | nil => rfl
  | cons e rest =>
    by_cases sign : e.kind = .equals
    · cases rest with
      | nil => simp [value, sign, shiftResult, ParseError.shift]
      | cons v more =>
        have glued := glueShift n v.span.stop more
        cases kind : v.kind <;>
          simp [value, sign, kind, glued, shiftResult, shiftValue, ParseError.shift]
    · simp [value, sign, shiftResult, shiftValue]

def shiftRead (n : Nat) (r : List Attribute × Bool) : List Attribute × Bool :=
  (r.1.map (Attribute.shift n), r.2)

theorem readsShift {ts : List Token} {result : Except ParseError (List Attribute × Bool)} (n : Nat)
    (h : Reads ts result) : Reads (ts.map (Token.shift n)) (shiftResult n (shiftRead n) result) := by
  induction h with
  | done => exact .done
  | @refused t rest e named here =>
    have moved := valueShift n t rest
    rw [here] at moved
    exact .refused (t := t.shift n) named moved
  | @valued t rest text last left result named here tail ih =>
    have moved := valueShift n t rest
    rw [here] at moved
    have reads := Reads.valued (t := t.shift n) named moved ih
    cases result with
    | error e => exact reads
    | ok made => exact reads
  | @skipped t rest result kind tail ih => exact .skipped (t := t.shift n) kind ih
  | @closing t rest result kind tail ih =>
    have reads := Reads.closing (t := t.shift n) kind ih
    cases result with
    | error e => exact reads
    | ok made => exact reads
  | @unexpected t rest kind => exact .unexpected (t := t.shift n) kind

theorem readShift (n : Nat) (ts : List Token) :
    read (ts.map (Token.shift n)) = shiftResult n (shiftRead n) (read ts) :=
  readsRead (readsShift n (readReads ts))

end Attributes

def State.shift (n : Nat) (s : State) : State := { s with pos := n + s.pos }

def Step.shift (n : Nat) : Step → Step
  | .wait => .wait
  | .failed e => .failed (e.shift n)
  | .emit e next => .emit (e.shift n) (next.shift n)

namespace State

@[simp] theorem shiftPos (n : Nat) (s : State) : (s.shift n).pos = n + s.pos := rfl

@[simp] theorem shiftPending (n : Nat) (s : State) : (s.shift n).pending = s.pending := rfl

@[simp] theorem shiftRaw (n : Nat) (s : State) : (s.shift n).raw = s.raw := rfl

@[simp] theorem shiftSpanOf (n : Nat) (s : State) (taken : Text) :
    (s.shift n).spanOf taken = (s.spanOf taken).shift n := by
  simp [spanOf, Span.shift, Nat.add_assoc]

@[simp] theorem shiftMoved (n : Nat) (s : State) (taken rest : Text) :
    (s.shift n).moved taken rest = (s.moved taken rest).shift n := by
  simp [moved, shift, Nat.add_assoc]

theorem emitTextShift (n : Nat) (s : State) (taken rest : Text) :
    (s.shift n).emitText taken rest = (s.emitText taken rest).shift n := by
  simp [emitText, Step.shift, Event.shift]

theorem emitCommentShift (n : Nat) (s : State) (taken rest : Text) :
    (s.shift n).emitComment taken rest = (s.emitComment taken rest).shift n := by
  simp [emitComment, Step.shift, Event.shift]

theorem awaitingShift (n : Nat) (final : Bool) (s : State) (awaited : Awaited) :
    (s.shift n).awaiting final awaited = (s.awaiting final awaited).shift n := by
  unfold awaiting
  split
  · simp [Step.shift, ParseError.shift]
  · rfl

theorem declarationUntilShift (n : Nat) (final : Bool) (s : State) (opening : Nat)
    (terminator : Text) : (s.shift n).declarationUntil final opening terminator =
      (s.declarationUntil final opening terminator).shift n := by
  unfold declarationUntil
  rw [shiftPending]
  split
  · exact emitCommentShift n s _ _
  · exact awaitingShift n final s _

theorem declarationShift (n : Nat) (final : Bool) (s : State) :
    (s.shift n).declaration final = (s.declaration final).shift n := by
  unfold declaration
  rw [shiftPending]
  split
  · exact declarationUntilShift n final s _ _
  · split
    · rfl
    · exact declarationUntilShift n final s _ _

theorem endTagShift (n : Nat) (final : Bool) (s : State) :
    (s.shift n).endTag final = (s.endTag final).shift n := by
  unfold endTag
  rw [shiftPending]
  split
  · exact awaitingShift n final s _
  · simp only
    split
    · simp [Step.shift, Event.shift]
    · exact emitCommentShift n s _ _

theorem startTagShift (n : Nat) (final : Bool) (s : State) :
    (s.shift n).startTag final = (s.startTag final).shift n := by
  unfold startTag
  simp only [shiftPending, shiftPos, Nat.add_assoc n]
  split
  · exact awaitingShift n final s _
  · split
    · rfl
    · split
      · exact awaitingShift n final s _
      · rw [Token.scanShift, Attributes.readShift]
        generalize Attributes.read _ = result
        cases result with
        | error e => rfl
        | ok made =>
          simp only [Attributes.shiftRead, shiftResult, shiftMoved, shiftSpanOf]
          rfl

theorem constructShift (n : Nat) (final : Bool) (s : State) (rest : Text) :
    (s.shift n).construct final rest = (s.construct final rest).shift n := by
  unfold construct
  split
  · split
    · exact emitTextShift n s _ _
    · rfl
  · split
    · exact declarationShift n final s
    · split
      · exact endTagShift n final s
      · split
        · exact startTagShift n final s
        · exact emitTextShift n s _ _

theorem plainShift (n : Nat) (final : Bool) (s : State) :
    (s.shift n).plain final = (s.plain final).shift n := by
  unfold plain
  rw [shiftPending]
  split
  · rfl
  · split
    · exact constructShift n final s _
    · exact emitTextShift n s _ _

theorem stepShift (n : Nat) (final : Bool) (s : State) :
    (s.shift n).step final = (s.step final).shift n := by
  unfold step
  rw [shiftRaw, shiftPending]
  split
  · exact plainShift n final s
  · split
    · exact plainShift n final s
    · exact emitTextShift n s _ _
    · rfl
    · simp [Step.shift, ParseError.shift]

theorem traceShift {final : Bool} {s : State} {events : List Event}
    {last : Except ParseError State} (n : Nat) (h : Trace final s events last) :
    Trace final (s.shift n) (events.map (Event.shift n)) (shiftResult n (State.shift n) last) := by
  induction h with
  | @wait s here =>
    have moved := stepShift n final s
    rw [here] at moved
    exact .wait moved
  | @failed s e here =>
    have moved := stepShift n final s
    rw [here] at moved
    exact .failed moved
  | @emit s e next events last here tail ih =>
    have moved := stepShift n final s
    rw [here] at moved
    exact .emit moved ih

theorem drainShift (n : Nat) (final : Bool) (s : State) :
    (s.shift n).drain final = ((s.drain final).1.map (Event.shift n),
      shiftResult n (State.shift n) (s.drain final).2) :=
  traceDrain (traceShift n (drainTrace final s))

end State

end Markup
end ComponentFile
