import Mathlib.Data.List.Forall2
import Mathlib.Data.List.TakeWhile
import ComponentFile.Proofs.Text.LineEndings
import ComponentFile.Proofs.Markup.Tokens

/-! Opening tags of a document whose line feeds are written in another way. Outside of quotes a line
feed only parts tokens, as every other blank does, so the tokens correspond one to one; the text
of a token, and the value of an attribute, differ only where a line feed stands in it. -/
namespace ComponentFile

def Span.respelled (ending document : Text) (s : Span) : Span :=
  ⟨Text.placeIn ending document s.start, Text.placeIn ending document s.stop⟩

section Simp
variable (ending document : Text) (s : Span)

@[simp] theorem Span.respelledStart :
    (s.respelled ending document).start = Text.placeIn ending document s.start := rfl

@[simp] theorem Span.respelledStop :
    (s.respelled ending document).stop = Text.placeIn ending document s.stop := rfl

end Simp

namespace Markup
open Text (BlankEnding Stands placeIn)

def Token.respelled (ending document : Text) (t : Token) : Token :=
  ⟨t.kind, t.span.respelled ending document, Text.respelled ending t.text⟩

section Simp
variable (ending document : Text) (t : Token)

@[simp] theorem Token.respelledKind : (t.respelled ending document).kind = t.kind := rfl

@[simp] theorem Token.respelledSpan :
    (t.respelled ending document).span = t.span.respelled ending document := rfl

@[simp] theorem Token.respelledText :
    (t.respelled ending document).text = Text.respelled ending t.text := rfl

end Simp

def ParseError.respelled (ending document : Text) (e : ParseError) : ParseError :=
  { e with span := e.span.respelled ending document }

def BrokenValue (document : Text) (s : Span) : Prop :=
  ∃ pos quote inside, s.start ≤ pos ∧ (quote = '"' ∨ quote = '\'') ∧
    Stands document pos (quote :: inside ++ [quote]) ∧
    pos + Text.size (quote :: inside ++ [quote]) = s.stop ∧ '\n' ∈ inside

/- The value may have changed only if there is a line feed between its quotes. -/
structure Attribute.Respelled (ending document : Text) (a b : Attribute) : Prop where
  name : b.name = a.name
  span : b.span = a.span.respelled ending document
  value : b.value = a.value ∨ BrokenValue document a.span

inductive Corresponds (ending document : Text) {α β : Type} (related : α → β → Prop) :
    Except ParseError α → Except ParseError β → Prop where
  | ok {a b} (here : related a b) : Corresponds ending document related (.ok a) (.ok b)
  | error (e) : Corresponds ending document related (.error e)
      (.error (e.respelled ending document))

variable {ending document : Text}

theorem correspondsOk {α β : Type} {related : α → β → Prop} {a : α} {y : Except ParseError β}
    (h : Corresponds ending document related (.ok a) y) : ∃ b, y = .ok b ∧ related a b := by
  cases h with
  | ok here => exact ⟨_, rfl, here⟩

theorem correspondsError {α β : Type} {related : α → β → Prop} {e : ParseError}
    {y : Except ParseError β} (h : Corresponds ending document related (.error e) y) :
    y = .error (e.respelled ending document) := by
  cases h with
  | error e => rfl

theorem correspondsMap {α β γ δ : Type} {related : α → β → Prop} {r : γ → δ → Prop}
    {f : α → γ} {g : β → δ} (onward : ∀ a b, related a b → r (f a) (g b))
    {x : Except ParseError α} {y : Except ParseError β}
    (h : Corresponds ending document related x y) :
    Corresponds ending document r (x.map f) (y.map g) := by
  cases h with
  | ok here => exact .ok (onward _ _ here)
  | error e => exact .error e

namespace Token

inductive HoldsBlanks (t : Token) : Prop where
  | quoted {quote inside} (known : quote = '"' ∨ quote = '\'')
      (kind : t.kind = quotedKind quote) (text : t.text = quote :: inside ++ [quote])
  | invalid (kind : t.kind = .invalid)

theorem holdsKind {t : Token} (h : HoldsBlanks t) :
    t.kind = .doubleQuoted ∨ t.kind = .singleQuoted ∨ t.kind = .invalid := by
  cases h with
  | quoted known kind text =>
    rcases known with rfl | rfl
    · exact .inl kind
    · exact .inr (.inl kind)
  | invalid kind => exact .inr (.inr kind)

structure Sound (document : Text) (tokens : List Token) : Prop where
  ordered : tokens.Pairwise fun a b => a.span.start ≤ b.span.start
  place : ∀ t ∈ tokens, Stands document t.span.start t.text ∧
    t.span.start + t.text.size = t.span.stop
  shape : ∀ t ∈ tokens, '\n' ∈ t.text → HoldsBlanks t

theorem soundSuffix {left tokens : List Token} (suffix : left <:+ tokens)
    (sound : Sound document tokens) : Sound document left where
  ordered := sound.ordered.sublist suffix.sublist
  place t member := sound.place t (suffix.subset member)
  shape t member := sound.shape t (suffix.subset member)

theorem blankOutsideName {c : Char} (here : Text.isBlank c = true) : isNameCharacter c = false := by
  simp [isNameCharacter, here]

theorem firstHolds {c : Char} {rest text after : Text} {kind : TokenKind} {span : Span}
    (solid : Text.isBlank c = false) (here : first c rest = (kind, text, after))
    (feed : '\n' ∈ text) : HoldsBlanks ⟨kind, span, text⟩ := by
  have other : c ≠ '\n' := Text.solidOther solid
  unfold first at here
  split at here
  · cases here; simp at feed
  · split at here
    · cases here; simp at feed
    · split at here
      · cases here; simp at feed
      · split at here
        · split at here
          · cases here; simp at feed
          · cases here; simp at feed
        · split at here
          · rename_i known
            split at here
            · cases here
              exact .quoted known rfl rfl
            · cases here
              exact .invalid rfl
          · cases here
            rcases List.mem_cons.mp feed with same | inName
            · exact absurd same.symm other
            · exact absurd (List.mem_takeWhile_imp inName) (by decide)

theorem scansSound {pos : Nat} {t : Text} {tokens : List Token} (h : Scans pos t tokens)
    (stands : Stands document pos t) : Sound document tokens := by
  refine ⟨?_, ?_, ?_⟩
  · clear stands
    induction h with
    | done pos => exact .nil
    | blank here tail ih => exact ih
    | @token pos c rest kind text after tokens solid here tail ih =>
      refine .cons (fun u member => ?_) ih
      obtain ⟨before, behind, _, place⟩ := scansPlace tail member
      rw [place]
      change pos ≤ pos + text.size + before.size
      omega
  · intro u member
    obtain ⟨before, behind, rfl, place⟩ := scansPlace h member
    rw [List.append_assoc] at stands
    rw [place]
    exact ⟨Text.standsFront (Text.standsBehind stands), rfl⟩
  · clear stands
    induction h with
    | done pos => simp
    | blank here tail ih => exact ih
    | @token pos c rest kind text after tokens solid here tail ih =>
      intro u member feed
      rcases List.mem_cons.mp member with rfl | later
      · exact firstHolds solid here feed
      · exact ih u later feed

section Scan
variable (blank : BlankEnding ending)
include blank

theorem untilQuoteRespelled {quote : Char} (solid : Text.isBlank quote = false) (t : Text) :
    untilQuote quote (Text.respelled ending t) =
      (untilQuote quote t).map (Text.respelledBoth ending) := by
  have passes (c : Char) (t : Text) (here : Text.isBlank c = true) :
      untilQuote quote (c :: t) = (untilQuote quote t).map (Text.behindFront [c]) := by
    have apart : c ≠ quote := by
      rintro rfl
      exact absurd here (by simp [solid])
    rw [untilQuote, if_neg apart]
    rfl
  induction t with
  | nil => rfl
  | cons c rest ih =>
    cases here : Text.isBlank c with
    | true => exact Text.cutRespelled blank passes here ih
    | false =>
      have other := Text.solidOther here
      rw [Text.respelledOther rest other, untilQuote, untilQuote, ih]
      split
      · rfl
      · exact Text.respelledBehind other _

theorem firstRespelled {c : Char} (solid : Text.isBlank c = false) (rest : Text) :
    first c (Text.respelled ending rest) = ((first c rest).1,
      Text.respelled ending (first c rest).2.1, Text.respelled ending (first c rest).2.2) := by
  have other := Text.solidOther solid
  unfold first
  by_cases angle : c = '>'
  · simp [angle, Text.respelledClean]
  rw [if_neg angle, if_neg angle]
  by_cases equal : c = '='
  · simp [equal, Text.respelledClean]
  rw [if_neg equal, if_neg equal]
  by_cases left : c = '<'
  · simp [left, Text.respelledClean]
  rw [if_neg left, if_neg left]
  by_cases slash : c = '/'
  · rw [if_pos slash, if_pos slash]
    rcases Text.respelledStart blank rest with
      rfl | ⟨d, more, rfl, _, same⟩ | ⟨d, more, e, behind, rfl, inText, inOther, same⟩
    · rfl
    · rw [same]
      by_cases closes : d = '>'
      · subst closes
        rfl
      · simp [closes, same, Text.respelledClean]
    · -- no blank is the angle that would close the tag
      have apart {d : Char} (here : Text.isBlank d = true) : d ≠ '>' := by
        rintro rfl
        contradiction
      simp [same, apart inText, apart inOther, Text.respelledClean]
  rw [if_neg slash, if_neg slash]
  by_cases quote : c = '"' ∨ c = '\''
  · rw [if_pos quote, if_pos quote, untilQuoteRespelled blank solid]
    cases untilQuote c rest with
    | none => simp [Text.respelledOther rest other]
    | some parts =>
      simp [Text.respelledBoth, Text.respelledOther _ other]
  · rw [if_neg quote, if_neg quote]
    obtain ⟨taken, dropped⟩ := Text.takeWhileRespelled blank (fun _ => blankOutsideName) rest
    rw [taken, dropped, Text.respelledOther _ other]

omit blank in
theorem scansBehind {front t : Text} {pos : Nat} {tokens : List Token}
    (all : ∀ c ∈ front, Text.isBlank c = true) (h : Scans (pos + front.size) t tokens) :
    Scans pos (front ++ t) tokens := by
  induction front generalizing pos with
  | nil => simpa using h
  | cons c rest ih =>
    rw [Text.sizeCons, ← Nat.add_assoc] at h
    exact .blank (all c List.mem_cons_self)
      (ih (fun d member => all d (List.mem_cons_of_mem c member)) h)

theorem scansRespelled {pos : Nat} {t : Text} {tokens : List Token} (h : Scans pos t tokens)
    (stands : Stands document pos t) : Scans (placeIn ending document pos)
      (Text.respelled ending t) (tokens.map (Token.respelled ending document)) := by
  induction h with
  | done pos => exact .done _
  | @blank pos c rest tokens here tail ih =>
    have place := Text.standsPlace ending (Text.standsFront (a := [c]) stands)
    have onward := ih (by simpa using Text.standsBehind (a := [c]) stands)
    simp only [Text.sizeCons, Text.sizeNil, Nat.add_zero] at place
    rw [place, Text.respelledCons, Text.respelledNil, List.append_nil] at *
    exact scansBehind (Text.spelledBlank blank here) onward
  | @token pos c rest kind text after tokens solid here tail ih =>
    obtain ⟨splits, _⟩ := firstSplits here
    rw [splits] at stands
    have place := Text.standsPlace ending (Text.standsFront stands)
    have onward := ih (Text.standsBehind stands)
    have first := firstRespelled blank solid rest
    rw [here] at first
    rw [place] at onward
    rw [Text.respelledOther rest (Text.solidOther solid), List.map_cons]
    have token : Token.respelled ending document ⟨kind, ⟨pos, pos + text.size⟩, text⟩ =
        ⟨kind, ⟨placeIn ending document pos,
          placeIn ending document pos + (Text.respelled ending text).size⟩,
          Text.respelled ending text⟩ := by
      simp [Token.respelled, Span.respelled, place]
    rw [token]
    exact .token solid first onward

end Scan

end Token

namespace Attributes

structure Given (ending document : Text) (start : Nat) (a b : Text × Nat × List Token) : Prop where
  value : b.1 = a.1 ∨ BrokenValue document ⟨start, a.2.1⟩
  stop : b.2.1 = placeIn ending document a.2.1
  left : b.2.2 = a.2.2.map (Token.respelled ending document)

structure Listed (ending document : Text) (a b : List Attribute × Bool) : Prop where
  attributes : List.Forall₂ (Attribute.Respelled ending document) a.1 b.1
  closing : b.2 = a.2

section Read
variable (blank : BlankEnding ending)
include blank

omit blank in
theorem solidKept {t : Token} (shape : '\n' ∈ t.text → Token.HoldsBlanks t)
    (solid : t.kind = .name ∨ t.kind = .slash ∨ t.kind = .equals) :
    Text.respelled ending t.text = t.text := by
  apply Text.respelledClean
  intro feed
  have kind := Token.holdsKind (shape feed)
  rcases solid with solid | solid | solid <;> simp [solid] at kind

omit blank in
theorem quotedBroken {v : Token} {start : Nat} (behind : start ≤ v.span.start)
    (place : Stands document v.span.start v.text ∧ v.span.start + v.text.size = v.span.stop)
    (closed : v.kind ≠ .invalid) (feed : '\n' ∈ v.text) (shape : Token.HoldsBlanks v) :
    BrokenValue document ⟨start, v.span.stop⟩ := by
  cases shape with
  | invalid kind => contradiction
  | @quoted quote inside known kind text =>
    rw [text] at feed place
    have inner : '\n' ∈ inside := by
      rcases known with rfl | rfl <;> simpa using feed
    exact ⟨v.span.start, quote, inside, behind, known, place.1, place.2, inner⟩

theorem glueRespelled (document : Text) {tokens : List Token} (stop : Nat)
    (shape : ∀ t ∈ tokens, '\n' ∈ t.text → Token.HoldsBlanks t) :
    glue (placeIn ending document stop) (tokens.map (Token.respelled ending document)) =
      ((glue stop tokens).1, placeIn ending document (glue stop tokens).2.1,
        (glue stop tokens).2.2.map (Token.respelled ending document)) := by
  induction tokens generalizing stop with
  | nil => rfl
  | cons t rest ih =>
    have onward := ih t.span.stop fun u member => shape u (List.mem_cons_of_mem t member)
    have meets : placeIn ending document t.span.start = placeIn ending document stop ↔
        t.span.start = stop := (Text.placeInMono blank document).injective.eq_iff
    simp only [List.map_cons, glue, Token.respelledKind, Token.respelledSpan, Token.respelledText,
      Span.respelledStart, Span.respelledStop, meets]
    split
    · rename_i glued
      rw [onward, solidKept (shape t List.mem_cons_self) glued.1]
    · rfl

omit blank in
theorem quotedGiven {v : Token} {start : Nat} (more : List Token) (behind : start ≤ v.span.start)
    (place : Stands document v.span.start v.text ∧ v.span.start + v.text.size = v.span.stop)
    (closed : v.kind ≠ .invalid) (shape : '\n' ∈ v.text → Token.HoldsBlanks v) :
    Given ending document start (Reference.decode (unquote v.text), v.span.stop, more)
      (Reference.decode (unquote (Text.respelled ending v.text)),
        placeIn ending document v.span.stop, more.map (Token.respelled ending document)) := by
  refine ⟨?_, rfl, rfl⟩
  by_cases feed : '\n' ∈ v.text
  · exact .inr (quotedBroken behind place closed feed (shape feed))
  · rw [Text.respelledClean feed]
    exact .inl rfl

theorem gluedGiven {v : Token} {more : List Token} (start : Nat)
    (shape : ∀ t ∈ v :: more, '\n' ∈ t.text → Token.HoldsBlanks t)
    (solid : v.kind = .name ∨ v.kind = .slash ∨ v.kind = .equals) :
    Given ending document start
      (Reference.decode (v.text ++ (glue v.span.stop more).1), (glue v.span.stop more).2)
      (Reference.decode (Text.respelled ending v.text ++
          (glue (placeIn ending document v.span.stop)
            (more.map (Token.respelled ending document))).1),
        (glue (placeIn ending document v.span.stop)
          (more.map (Token.respelled ending document))).2) := by
  obtain ⟨here, later⟩ := List.forall_mem_cons.mp shape
  rw [glueRespelled blank document v.span.stop later, solidKept here solid]
  exact ⟨.inl rfl, rfl, rfl⟩

theorem valueRespelled {name : Token} {tokens : List Token} (named : name.kind = .name)
    (sound : Token.Sound document (name :: tokens)) :
    Corresponds ending document (Given ending document name.span.start) (value name tokens)
      (value (name.respelled ending document) (tokens.map (Token.respelled ending document))) := by
  have first : Text.respelled ending name.text = name.text :=
    solidKept (sound.shape name List.mem_cons_self) (.inl named)
  cases tokens with
  | nil => exact .ok ⟨.inl rfl, rfl, rfl⟩
  | cons e rest =>
    by_cases sign : e.kind = .equals
    · cases rest with
      | nil =>
        simp only [List.map_cons, List.map_nil, value, Token.respelledKind, Token.respelledSpan,
          Token.respelledText, sign, if_true, first]
        exact .error _
      | cons v more =>
        have member : v ∈ name :: e :: v :: more := by simp
        have behind := (List.pairwise_cons.mp sound.ordered).1 v (by simp)
        have quoted (closed : v.kind ≠ .invalid) :=
          @quotedGiven ending document v _ more behind (sound.place v member) closed
            (sound.shape v member)
        have glued := @gluedGiven ending document blank v more name.span.start
          fun t inMore => sound.shape t (List.mem_cons_of_mem _ (List.mem_cons_of_mem _ inMore))
        simp only [List.map_cons, value, Token.respelledKind, Token.respelledSpan,
          Token.respelledText, Span.respelledStop, sign, if_true, first]
        cases kind : v.kind with
        | doubleQuoted => exact .ok (quoted (by simp [kind]))
        | singleQuoted => exact .ok (quoted (by simp [kind]))
        | name => exact .ok (glued (.inl kind))
        | slash => exact .ok (glued (.inr (.inl kind)))
        | rightAngle => exact .error _
        | slashRightAngle => exact .error _
        | equals => exact .error _
        | leftAngle => exact .error _
        | invalid => exact .error _
    · simp only [List.map_cons, value, Token.respelledKind, Token.respelledSpan,
        Span.respelledStop, sign, if_false]
      exact .ok ⟨.inl rfl, rfl, rfl⟩

theorem readsRespelled {tokens : List Token} {result : Except ParseError (List Attribute × Bool)}
    (h : Reads tokens result) (sound : Token.Sound document tokens) :
    ∃ other, Reads (tokens.map (Token.respelled ending document)) other ∧
      Corresponds ending document (Listed ending document) result other := by
  induction h with
  | done => exact ⟨_, .done, .ok ⟨.nil, rfl⟩⟩
  | @refused t rest e named here =>
    have given := valueRespelled blank named sound
    rw [here] at given
    exact ⟨_, .refused (t := t.respelled ending document) named (correspondsError given), .error e⟩
  | @valued t rest text last left result named here tail ih =>
    obtain ⟨other, reads, related⟩ :=
      ih (Token.soundSuffix ((valueSuffix here).trans (List.suffix_cons t rest)) sound)
    have given := valueRespelled blank named sound
    have name : Text.respelled ending t.text = t.text :=
      solidKept (sound.shape t List.mem_cons_self) (.inl named)
    rw [here] at given
    obtain ⟨⟨otherText, otherLast, otherLeft⟩, valued, ⟨value, rfl, rfl⟩⟩ := correspondsOk given
    refine ⟨_, .valued (t := t.respelled ending document) named valued reads, ?_⟩
    refine correspondsMap (fun a b listed => ⟨.cons ⟨?_, rfl, value⟩ listed.attributes, ?_⟩) related
    · simp only [Token.respelledText, name]
    · exact listed.closing
  | @skipped t rest result kind tail ih =>
    obtain ⟨other, reads, related⟩ := ih (Token.soundSuffix (List.suffix_cons t rest) sound)
    exact ⟨other, .skipped (t := t.respelled ending document) kind reads, related⟩
  | @closing t rest result kind tail ih =>
    obtain ⟨other, reads, related⟩ := ih (Token.soundSuffix (List.suffix_cons t rest) sound)
    refine ⟨_, .closing (t := t.respelled ending document) kind reads, ?_⟩
    exact correspondsMap (fun a b listed => ⟨listed.attributes, rfl⟩) related
  | @unexpected t rest kind =>
    exact ⟨_, .unexpected (t := t.respelled ending document) kind, .error _⟩

end Read

end Attributes

section Tag
variable (blank : BlankEnding ending)
include blank

theorem insideRespelled {pos : Nat} {inside : Text} (stands : Stands document pos inside) :
    Corresponds ending document (Attributes.Listed ending document)
      (Attributes.read (Token.scan pos inside))
      (Attributes.read
        (Token.scan (placeIn ending document pos) (Text.respelled ending inside))) := by
  have scans := Token.scanScans pos inside
  obtain ⟨other, reads, related⟩ :=
    Attributes.readsRespelled blank (Attributes.readReads _) (Token.scansSound scans stands)
  rw [Token.scansScan (Token.scansRespelled blank scans stands), Attributes.readsRead reads]
  exact related

theorem tagEndRespelled {quote : Option Char} (solid : ∀ q ∈ quote, Text.isBlank q = false)
    (t : Text) : tagEnd? quote (Text.respelled ending t) =
      (tagEnd? quote t).map (Text.respelledBoth ending) := by
  induction t generalizing quote with
  | nil => cases quote <;> rfl
  | cons c rest ih =>
    cases here : Text.isBlank c with
    | true =>
      -- a blank neither ends the tag nor changes whether a quote is open
      refine Text.cutRespelled blank (fun d t blankHere => ?_) here (ih solid)
      cases quote with
      | none =>
        have apart := Text.blankEvery (p := fun c => !(c = '>' || c = '"' || c = '\'')) rfl blankHere
        simp only [Bool.not_eq_true', Bool.or_eq_false_iff, decide_eq_false_iff_not] at apart
        rw [tagEnd?, if_neg apart.1.1, if_neg (not_or.mpr ⟨apart.1.2, apart.2⟩)]
        rfl
      | some q =>
        have : d ≠ q := by
          rintro rfl
          exact absurd blankHere (by simp [solid])
        rw [tagEnd?, if_neg this]
        rfl
    | false =>
      have other := Text.solidOther here
      rw [Text.respelledOther rest other]
      cases quote with
      | none =>
        rw [tagEnd?, tagEnd?]
        split
        · simp [Text.respelledBoth, Text.respelledClean]
        · rw [ih (by split <;> simp [here])]
          exact Text.respelledBehind other _
      | some q =>
        rw [tagEnd?, tagEnd?, ih]
        · exact Text.respelledBehind other _
        · split
          · simp
          · exact solid

end Tag

end Markup
end ComponentFile
