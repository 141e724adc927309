import Mathlib.Data.List.Forall2
import ComponentFile.Proofs.Markup.TagEnd

/-! Opening tags as they may be written, and what they are read as. Between the attributes stand
blanks; a value stands in quotes or is a run of characters without blanks, which may look like several
tokens. Every such tag is read back with all of its attributes, each at its place. -/
namespace ComponentFile.Markup

def Blanks : Type := { t : Text // ∀ c ∈ t, Text.isBlank c = true }

def Gap : Type := { t : Text // t ≠ [] ∧ ∀ c ∈ t, Text.isBlank c = true }

def isRunCharacter (c : Char) : Bool := Token.isNameCharacter c || c = '/' || c = '='

inductive WrittenValue where
  | quoted (quote : Char) (known : quote = '"' ∨ quote = '\'') (raw : Text) (clean : quote ∉ raw)
  | bare (raw : Text) (nonempty : raw ≠ []) (clean : ∀ c ∈ raw, isRunCharacter c = true)
      (front : raw.head? ≠ some '=')

namespace WrittenValue

def raw : WrittenValue → Text
  | quoted _ _ raw _ => raw
  | bare raw _ _ _ => raw

def text : WrittenValue → Text
  | quoted quote _ raw _ => quote :: raw ++ [quote]
  | bare raw _ _ _ => raw

end WrittenValue

structure Assignment where
  before : Blanks
  after : Blanks
  value : WrittenValue

def Assignment.text (a : Assignment) : Text := a.before.val ++ '=' :: a.after.val ++ a.value.text

structure WrittenAttribute where
  gap : Gap
  name : Text
  nonempty : name ≠ []
  clean : ∀ c ∈ name, Token.isNameCharacter c = true
  assigned : Option Assignment

namespace WrittenAttribute

def body (a : WrittenAttribute) : Text := a.name ++ (a.assigned.map Assignment.text).getD []

def text (a : WrittenAttribute) : Text := a.gap.val ++ a.body

def raw (a : WrittenAttribute) : Text := (a.assigned.map (·.value.raw)).getD []

def read (pos : Nat) (a : WrittenAttribute) : Attribute :=
  ⟨Text.lower a.name, Reference.decode a.raw,
    ⟨pos + Text.size a.gap.val, pos + Text.size a.text⟩⟩

def readAll (pos : Nat) : List WrittenAttribute → List Attribute
  | [] => []
  | a :: rest => a.read pos :: readAll (pos + Text.size a.text) rest

end WrittenAttribute

structure WrittenTag where
  name : Text
  letter : (name.head?.map Char.isAlpha).getD false = true
  clean : ∀ c ∈ name, Token.isNameCharacter c = true
  attributes : List WrittenAttribute
  gap : Gap
  closing : Bool

namespace WrittenTag

def ending (tag : WrittenTag) : Text := tag.gap.val ++ if tag.closing then ['/', '>'] else ['>']

def inside (tag : WrittenTag) : Text := tag.attributes.flatMap (·.text) ++ tag.ending

def text (tag : WrittenTag) : Text := '<' :: tag.name ++ tag.inside

def read (tag : WrittenTag) : StartTag :=
  ⟨Text.lower tag.name, WrittenAttribute.readAll (1 + Text.size tag.name) tag.attributes,
    ⟨0, Text.size tag.text⟩, tag.closing⟩

end WrittenTag

/- Text that begins with a blank, so that every token before it ends there. -/
def StartsBlank (t : Text) : Prop := ∃ c ∈ t.head?, Text.isBlank c = true

structure Tagged (pos : Nat) (t : Text) (tokens : List Token) : Prop where
  scans : Token.Scans pos t tokens
  ends : tagEnd? none t = some (t, [])

section Tagged
variable {pos : Nat} {t : Text} {tokens : List Token}

theorem taggedBlanks {blanks : Text} (all : ∀ c ∈ blanks, Text.isBlank c = true)
    (h : Tagged (pos + Text.size blanks) t tokens) : Tagged pos (blanks ++ t) tokens := by
  induction blanks generalizing pos with
  | nil => simpa using h
  | cons c rest ih =>
    obtain ⟨blank, more⟩ := List.forall_mem_cons.mp all
    rw [Text.sizeCons, ← Nat.add_assoc] at h
    obtain ⟨scans, ends⟩ := ih more h
    refine ⟨.blank blank scans, ?_⟩
    rw [List.cons_append, tagEndBlank _ blank, ends]
    rfl

theorem taggedToken {c : Char} {rest text : Text} {kind : TokenKind}
    (shape : Token.Shape c rest kind text t) (onward : ¬ kind.EndsTag) (closed : kind ≠ .invalid)
    (h : Tagged (pos + Text.size text) t tokens) :
    Tagged pos (text ++ t) (⟨kind, ⟨pos, pos + Text.size text⟩, text⟩ :: tokens) := by
  obtain ⟨splits, _⟩ := Token.firstSplits (Token.shapeFirst shape)
  rw [← splits]
  refine ⟨.token (Token.shapeSolid shape) (Token.shapeFirst shape) h.scans, ?_⟩
  rcases tagEndFirst shape with ⟨stops, _⟩ | ⟨open', _⟩ | ⟨_, _, goesOn⟩
  · exact absurd stops.ends onward
  · exact absurd open' closed
  · rw [goesOn, h.ends, splits]
    rfl

theorem blankBehind {a t : Text} (blank : StartsBlank t) {p : Char → Prop}
    (inText : ∀ d ∈ a.head?, p d) (atBlank : ∀ d, Text.isBlank d = true → p d) :
    ∀ d ∈ (a ++ t).head?, p d := by
  intro d here
  cases a with
  | cons c rest => exact inText d here
  | nil =>
    obtain ⟨c, head, holds⟩ := blank
    rw [List.nil_append] at here
    cases Option.mem_unique here head
    exact atBlank d holds

def InRun (kind : TokenKind) (text : Text) : Prop :=
  kind = .name ∨ kind = .slash ∨ (kind = .equals ∧ text = ['='])

inductive Glued : Nat → Text → List Token → Nat → Prop where
  | nil (pos : Nat) : Glued pos [] [] pos
  | cons {pos v kind text rest stop} (kinds : InRun kind text)
      (tail : Glued (pos + Text.size text) v rest stop) :
      Glued pos (text ++ v) (⟨kind, ⟨pos, pos + Text.size text⟩, text⟩ :: rest) stop

theorem gluedGlue {pos stop : Nat} {v : Text} {glued left : List Token} (h : Glued pos v glued stop)
    (apart : ∀ t ∈ left.head?, stop < t.span.start) :
    Attributes.glue pos (glued ++ left) = (v, stop, left) := by
  induction h with
  | nil pos =>
    cases left with
    | nil => rfl
    | cons t rest =>
      have := apart t rfl
      rw [List.nil_append, Attributes.glue, if_neg]
      omega
  | cons kinds tail ih =>
    rw [List.cons_append, Attributes.glue,
      if_pos ⟨kinds.imp_right (Or.imp_right And.left), rfl⟩, ih apart]

theorem runToken {c : Char} {rest : Text} (clean : ∀ d ∈ c :: rest, isRunCharacter d = true)
    (blank : StartsBlank t) :
    ∃ kind text more, c :: rest = text ++ more ∧ text ≠ [] ∧ InRun kind text ∧
      ∃ inner, Token.Shape c inner kind text (more ++ t) := by
  obtain ⟨run, later⟩ := List.forall_mem_cons.mp clean
  simp only [isRunCharacter, Bool.or_eq_true, decide_eq_true_eq] at run
  rcases run with (letter | rfl) | rfl
  · have cut := List.takeWhile_append_dropWhile (p := Token.isNameCharacter) (l := rest)
    have stops : ∀ d ∈ (rest.dropWhile Token.isNameCharacter).head?,
        Token.isNameCharacter d = false := by
      intro d here
      have stop := List.head?_dropWhile_not Token.isNameCharacter rest
      rw [Option.mem_def.mp here] at stop
      exact stop
    have atBlank (d : Char) (here : Text.isBlank d = true) : Token.isNameCharacter d = false := by
      simp [Token.isNameCharacter, here]
    exact ⟨.name, c :: rest.takeWhile Token.isNameCharacter, rest.dropWhile Token.isNameCharacter,
      by rw [List.cons_append, cut], by simp, .inl rfl, _,
      .name letter (fun d => List.mem_takeWhile_imp) (blankBehind blank stops atBlank)⟩
  · have inRun : ∀ d ∈ rest.head?, d ≠ '>' := by
      rintro d here rfl
      exact absurd (later '>' (List.mem_of_mem_head? here)) (by decide)
    have atBlank (d : Char) (here : Text.isBlank d = true) : d ≠ '>' := by
      rintro rfl
      contradiction
    exact ⟨.slash, ['/'], rest, rfl, by simp, .inr (.inl rfl), _,
      .slash fun angle => blankBehind blank inRun atBlank '>' angle rfl⟩
  · exact ⟨.equals, ['='], rest, rfl, by simp, .inr (.inr ⟨rfl, rfl⟩), _, .equals _⟩

theorem runTagged {v : Text} (clean : ∀ c ∈ v, isRunCharacter c = true) (blank : StartsBlank t)
    (h : Tagged (pos + Text.size v) t tokens) :
    ∃ glued, Glued pos v glued (pos + Text.size v) ∧ Tagged pos (v ++ t) (glued ++ tokens) := by
  induction n : v.length using Nat.strongRecOn generalizing pos v with
  | _ n ih =>
    subst n
    cases v with
    | nil => exact ⟨[], .nil pos, by simpa using h⟩
    | cons c rest =>
      obtain ⟨kind, text, more, cut, some, kinds, inner, shape⟩ := runToken clean blank
      rw [cut] at clean h ⊢
      rw [Text.sizeAppend, ← Nat.add_assoc] at h ⊢
      have shorter : more.length < (c :: rest).length := by
        have := List.length_pos_iff.mpr some
        rw [cut, List.length_append]
        omega
      obtain ⟨glued, goesOn, tagged⟩ := ih more.length shorter
        (fun c member => clean c (List.mem_append_right text member)) h rfl
      refine ⟨_ :: glued, .cons kinds goesOn, ?_⟩
      rw [List.append_assoc]
      refine taggedToken shape ?_ ?_ tagged
      · rcases kinds with rfl | rfl | ⟨rfl, _⟩ <;> decide
      · rcases kinds with rfl | rfl | ⟨rfl, _⟩ <;> decide

theorem nameTagged {name : Text} (nonempty : name ≠ [])
    (clean : ∀ c ∈ name, Token.isNameCharacter c = true)
    (stops : ∀ d ∈ t.head?, Token.isNameCharacter d = false)
    (h : Tagged (pos + Text.size name) t tokens) :
    Tagged pos (name ++ t) (⟨.name, ⟨pos, pos + Text.size name⟩, name⟩ :: tokens) := by
  cases name with
  | nil => contradiction
  | cons c rest =>
    obtain ⟨letter, whole⟩ := List.forall_mem_cons.mp clean
    exact taggedToken (.name letter whole stops) (by decide) (by decide) h

section Value
variable {name sign v : Token} {more : List Token}

theorem valueQuoted (equals : sign.kind = .equals)
    (kinds : v.kind = .doubleQuoted ∨ v.kind = .singleQuoted) :
    Attributes.value name (sign :: v :: more) =
      .ok (Reference.decode (Attributes.unquote v.text), v.span.stop, more) := by
  rcases kinds with kind | kind <;> simp [Attributes.value, equals, kind]

theorem valueRun (equals : sign.kind = .equals) (kinds : v.kind = .name ∨ v.kind = .slash) :
    Attributes.value name (sign :: v :: more) =
      .ok (Reference.decode (v.text ++ (Attributes.glue v.span.stop more).1),
        (Attributes.glue v.span.stop more).2.1, (Attributes.glue v.span.stop more).2.2) := by
  rcases kinds with kind | kind <;> simp [Attributes.value, equals, kind]

end Value

theorem valueTagged (value : WrittenValue) (blank : StartsBlank t)
    (apart : ∀ u ∈ tokens.head?, pos + Text.size value.text < u.span.start)
    (h : Tagged (pos + Text.size value.text) t tokens) :
    ∃ own, Tagged pos (value.text ++ t) (own ++ tokens) ∧
      ∀ name sign : Token, sign.kind = .equals → Attributes.value name (sign :: (own ++ tokens)) =
        .ok (Reference.decode value.raw, pos + Text.size value.text, tokens) := by
  cases value with
  | quoted quote known raw clean =>
    have shape := Token.Shape.quoted t known clean
    have plain : ¬ (Token.quotedKind quote).EndsTag ∧ Token.quotedKind quote ≠ .invalid := by
      rcases known with rfl | rfl <;> decide
    have kinds : Token.quotedKind quote = .doubleQuoted ∨ Token.quotedKind quote = .singleQuoted := by
      rcases known with rfl | rfl <;> decide
    have inner : Attributes.unquote (quote :: raw ++ [quote]) = raw := by simp [Attributes.unquote]
    refine ⟨[_], taggedToken shape plain.1 plain.2 h, fun name sign equals => ?_⟩
    refine (valueQuoted equals kinds).trans ?_
    change Except.ok (Reference.decode (Attributes.unquote (quote :: raw ++ [quote])), _, _) = _
    rw [inner]
    rfl
  | bare raw nonempty clean front =>
    obtain ⟨glued, runs, tagged⟩ := runTagged clean blank h
    refine ⟨glued, tagged, fun name sign equals => ?_⟩
    cases runs with
    | nil => contradiction
    | cons kinds tail =>
      have onward := gluedGlue tail apart
      rcases kinds with kind | kind | ⟨_, rfl⟩
      · rw [List.cons_append, valueRun equals (.inl kind)]
        simp only [onward]
        rfl
      · rw [List.cons_append, valueRun equals (.inr kind)]
        simp only [onward]
        rfl
      · exact absurd rfl front

end Tagged

structure Continues (pos : Nat) (t : Text) (tokens : List Token) (made : List Attribute × Bool) :
    Prop where
  tagged : Tagged pos t tokens
  blank : StartsBlank t
  apart : ∀ u ∈ tokens.head?, pos < u.span.start ∧ u.kind ≠ .equals
  reads : Attributes.Reads tokens (.ok made)

section Continues
variable {pos : Nat} {t : Text} {tokens : List Token} {made : List Attribute} {closing : Bool}

theorem gapBlank (gap : Gap) (t : Text) : StartsBlank (gap.val ++ t) := by
  obtain ⟨blanks, nonempty, all⟩ := gap
  cases blanks with
  | nil => contradiction
  | cons c rest => exact ⟨c, rfl, all c List.mem_cons_self⟩

theorem gapPositive (gap : Gap) : pos < pos + Text.size gap.val := by
  have := Text.sizePositive gap.property.1
  omega

theorem blankStops {c : Char} (blank : Text.isBlank c = true) : Token.isNameCharacter c = false := by
  simp [Token.isNameCharacter, blank]

theorem startsStops (blank : StartsBlank t) : ∀ d ∈ t.head?, Token.isNameCharacter d = false := by
  simpa using blankBehind (a := []) blank (by simp) fun d => blankStops

theorem valueNone {name : Token} (other : ∀ u ∈ tokens.head?, u.kind ≠ .equals) :
    Attributes.value name tokens = .ok ([], name.span.stop, tokens) := by
  cases tokens with
  | nil => rfl
  | cons u rest => exact if_neg (other u rfl)

def nameToken (pos : Nat) (name : Text) : Token := ⟨.name, ⟨pos, pos + Text.size name⟩, name⟩

theorem assignmentTagged (a : Assignment) (blank : StartsBlank t)
    (apart : ∀ u ∈ tokens.head?, pos + Text.size a.text < u.span.start)
    (h : Tagged (pos + Text.size a.text) t tokens) :
    ∃ own, Tagged pos (a.text ++ t) (own ++ tokens) ∧ ∀ name : Token,
      Attributes.value name (own ++ tokens) =
        .ok (Reference.decode a.value.raw, pos + Text.size a.text, tokens) := by
  obtain ⟨before, after, value⟩ := a
  have one : '='.utf8Size = 1 := by decide
  have place : pos + Text.size (Assignment.text ⟨before, after, value⟩) =
      pos + Text.size before.val + Text.size ['='] + Text.size after.val + Text.size value.text := by
    simp only [Assignment.text, Text.sizeAppend, Text.sizeCons, Text.sizeNil]
    omega
  rw [place] at h apart ⊢
  obtain ⟨own, tagged, reads⟩ := valueTagged value blank apart h
  have sign := taggedToken (.equals _) (by decide) (by decide) (taggedBlanks after.property tagged)
  have whole := taggedBlanks before.property sign
  exact ⟨_ :: own, by simpa [Assignment.text] using whole,
    fun name => reads name ⟨.equals, _, ['=']⟩ rfl⟩

theorem assignmentStops (a : Assignment) (t : Text) :
    ∀ d ∈ (a.text ++ t).head?, Token.isNameCharacter d = false := by
  obtain ⟨⟨before, blank⟩, after, value⟩ := a
  intro d here
  cases before with
  | nil => cases here; decide
  | cons c rest => cases here; exact blankStops (blank d List.mem_cons_self)

theorem bodyTagged (a : WrittenAttribute) (blank : StartsBlank t)
    (apart : ∀ u ∈ tokens.head?, pos + Text.size a.body < u.span.start ∧ u.kind ≠ .equals)
    (h : Tagged (pos + Text.size a.body) t tokens) :
    ∃ own, Tagged pos (a.body ++ t) (nameToken pos a.name :: (own ++ tokens)) ∧
      Attributes.value (nameToken pos a.name) (own ++ tokens) =
        .ok (Reference.decode a.raw, pos + Text.size a.body, tokens) := by
  obtain ⟨gap, name, nonempty, clean, assigned⟩ := a
  cases assigned with
  | none =>
    simp only [WrittenAttribute.body, WrittenAttribute.raw, Option.map_none, Option.getD_none,
      List.append_nil] at h ⊢
    exact ⟨[], nameTagged nonempty clean (startsStops blank) h,
      valueNone fun u here => (apart u here).2⟩
  | some a =>
    simp only [WrittenAttribute.body, WrittenAttribute.raw, Option.map_some, Option.getD_some,
      Text.sizeAppend, ← Nat.add_assoc] at h apart ⊢
    obtain ⟨own, tagged, reads⟩ := assignmentTagged a blank (fun u here => (apart u here).1) h
    rw [List.append_assoc]
    exact ⟨own, nameTagged nonempty clean (assignmentStops a t) tagged, reads _⟩

theorem attributeContinues (a : WrittenAttribute)
    (h : Continues (pos + Text.size a.text) t tokens (made, closing)) :
    ∃ own, Continues pos (a.text ++ t) own (a.read pos :: made, closing) := by
  have place : pos + Text.size a.text = pos + Text.size a.gap.val + Text.size a.body := by
    rw [WrittenAttribute.text, Text.sizeAppend, Nat.add_assoc]
  have read : a.read pos = ⟨Text.lower a.name, Reference.decode a.raw,
      ⟨pos + Text.size a.gap.val, pos + Text.size a.gap.val + Text.size a.body⟩⟩ := by
    rw [← place]
    rfl
  rw [place] at h
  obtain ⟨own, tagged, reads⟩ := bodyTagged a h.blank h.apart h.tagged
  rw [read, WrittenAttribute.text, List.append_assoc]
  refine ⟨_, taggedBlanks a.gap.property.2 tagged, gapBlank a.gap _, ?_, .valued rfl reads h.reads⟩
  rintro u ⟨⟩
  exact ⟨gapPositive a.gap, TokenKind.noConfusion⟩

theorem attributesContinue (attributes : List WrittenAttribute)
    (h : Continues (pos + Text.size (attributes.flatMap (·.text))) t tokens ([], closing)) :
    ∃ own, Continues pos (attributes.flatMap (·.text) ++ t) own
      (WrittenAttribute.readAll pos attributes, closing) := by
  induction attributes generalizing pos with
  | nil => exact ⟨tokens, by simpa [WrittenAttribute.readAll] using h⟩
  | cons a rest ih =>
    rw [List.flatMap_cons, Text.sizeAppend, ← Nat.add_assoc] at h
    obtain ⟨behind, later⟩ := ih h
    rw [List.flatMap_cons, List.append_assoc]
    exact attributeContinues a later

end Continues

theorem WrittenAttribute.readAllPlaced {before : Text} (attributes : List WrittenAttribute) (rest : Text)
    (place : Text.size before = pos) :
    List.Forall₂ (fun (a : WrittenAttribute) (made : Attribute) =>
        made.span.slice? (before ++ attributes.flatMap (·.text) ++ rest) = some a.body)
      attributes (readAll pos attributes) := by
  induction attributes generalizing pos before with
  | nil => exact .nil
  | cons a more ih =>
    subst place
    have split : before ++ (a :: more).flatMap (·.text) ++ rest =
        (before ++ a.text) ++ more.flatMap (·.text) ++ rest := by simp
    refine .cons ?_ ?_
    · have cut : before ++ (a :: more).flatMap (·.text) ++ rest =
          (before ++ a.gap.val) ++ a.body ++ (more.flatMap (·.text) ++ rest) := by
        simp [WrittenAttribute.text]
      refine Text.sliceExact.mpr ⟨before ++ a.gap.val, _, cut, ?_, ?_⟩
      · simp [read]
      · simp [read, WrittenAttribute.text, Nat.add_assoc]
    · rw [split]
      exact ih (Text.sizeAppend before a.text)

namespace WrittenTag
variable (tag : WrittenTag)

theorem endingContinues (pos : Nat) : ∃ tokens, Continues pos tag.ending tokens ([], tag.closing) := by
  -- the angle, with or without its slash, is one token and ends the tag
  have angle (text : Text) (kind : TokenKind) (c : Char) (rest : Text) (same : text = c :: rest)
      (shape : Token.Shape c rest kind text []) (ends : kind.EndsTag)
      (reads : ∀ span, Attributes.Reads [⟨kind, span, text⟩] (.ok ([], tag.closing))) :
      ∃ tokens, Continues pos (tag.gap.val ++ text) tokens ([], tag.closing) := by
    subst same
    have scans := Token.Scans.token (Token.shapeSolid shape) (Token.shapeFirst shape)
      (.done (pos + Text.size tag.gap.val + Text.size (c :: rest)))
    have found : tagEnd? none (c :: rest) = some (c :: rest, []) := by
      rcases tagEndFirst shape with ⟨_, same⟩ | ⟨rfl, _⟩ | ⟨other, _⟩
      · exact same
      · exact absurd ends (by decide)
      · exact absurd ends other
    refine ⟨_, taggedBlanks tag.gap.property.2 ⟨scans, found⟩, gapBlank tag.gap _, ?_, reads _⟩
    rintro u ⟨⟩
    refine ⟨gapPositive tag.gap, ?_⟩
    rintro rfl
    exact absurd ends (by decide)
  unfold ending
  cases closing : tag.closing with
  | false =>
    rw [closing] at angle
    exact angle ['>'] .rightAngle '>' [] rfl (.rightAngle []) (.inl rfl)
      fun span => .skipped (.inr rfl) .done
  | true =>
    rw [closing] at angle
    exact angle ['/', '>'] .slashRightAngle '/' ['>'] rfl (.slashRightAngle []) (.inr rfl)
      fun span => .closing rfl .done

theorem insideContinues (pos : Nat) : ∃ tokens, Continues pos tag.inside tokens
    (WrittenAttribute.readAll pos tag.attributes, tag.closing) := by
  obtain ⟨tokens, ending⟩ := tag.endingContinues _
  exact attributesContinue tag.attributes ending

def held : State :=
  ⟨Text.size tag.text, [],
    if !tag.closing && rawElements.contains (Text.lower tag.name) then some (Text.lower tag.name)
    else none⟩

theorem opensTag :
    State.Opens (State.start.extend tag.text) tag.read tag.held tag.name tag.inside := by
  obtain ⟨tokens, continues⟩ := tag.insideContinues (1 + Text.size tag.name)
  have scanned := Token.scansScan continues.tagged.scans
  have made := Attributes.readsRead continues.reads
  constructor
  · simp [text, held, State.start]
  · intro c member
    obtain ⟨blank, _, _, angle, slash, _⟩ := Token.nameCharacterExact.mp (tag.clean c member)
    simp [State.endsTagName, blank, angle, slash]
  · rfl
  · simpa [held] using continues.tagged.ends
  · change Attributes.read (Token.scan (0 + 1 + Text.size tag.name) tag.inside) = _
    rw [Nat.zero_add, scanned, made]
    rfl
  · change (⟨0, Text.size tag.text⟩ : Span) = ⟨0, 0 + Text.size tag.text⟩
    rw [Nat.zero_add]
  · rfl
  · rfl

/- Every tag is read back as it was written: one opened tag with its name in lower case and with
every attribute in its order. The span of an attribute covers its name and its value. -/
theorem writtenTagRead : State.start.write tag.text = ([.opened tag.read], .ok tag.held) ∧
    List.Forall₂ (fun (a : WrittenAttribute) made => made.span.slice? tag.text = some a.body)
      tag.attributes tag.read.attributes := by
  have sound : ∀ c ∈ tag.name, State.spoilsTagName c = false := by
    intro c member
    obtain ⟨_, quote, left, _, _, equals⟩ := Token.nameCharacterExact.mp (tag.clean c member)
    simp only [not_or] at quote
    simp [State.spoilsTagName, quote, left, equals]
  have stops : ∃ c ∈ tag.inside.head?, State.endsTagName c = true := by
    obtain ⟨tokens, continues⟩ := tag.insideContinues 0
    obtain ⟨c, here, blank⟩ := continues.blank
    exact ⟨c, here, by simp [State.endsTagName, blank]⟩
  have opens : (State.start.extend tag.text).step false = .emit (.opened tag.read) tag.held :=
    State.opensStep tag.opensTag rfl tag.letter sound stops
  have waits : tag.held.step false = .wait := by
    unfold State.step
    split
    · rfl
    · rfl
  constructor
  · change (State.start.extend tag.text).drain false = _
    rw [State.drainEmit opens, State.drainWait waits]
  · have one : '<'.utf8Size = 1 := by decide
    have whole : tag.text = ('<' :: tag.name) ++ tag.attributes.flatMap (·.text) ++ tag.ending := by
      simp [text, inside]
    rw [whole]
    exact WrittenAttribute.readAllPlaced tag.attributes tag.ending (by simp [one])

def crowded : WrittenTag where
  name := "Br"
  letter := by decide
  clean := List.all_eq_true.mp rfl
  attributes :=
    [⟨⟨" ", by decide, List.all_eq_true.mp rfl⟩, "A", by decide, List.all_eq_true.mp rfl,
        some ⟨⟨" ", List.all_eq_true.mp rfl⟩, ⟨[], List.all_eq_true.mp rfl⟩,
          .quoted '\'' (by decide) "/>\"" (by decide)⟩⟩,
      ⟨⟨"\n", by decide, List.all_eq_true.mp rfl⟩, "a", by decide, List.all_eq_true.mp rfl,
        some ⟨⟨[], List.all_eq_true.mp rfl⟩, ⟨"\t", List.all_eq_true.mp rfl⟩,
          .bare "/é=&#60;/" (by decide) (List.all_eq_true.mp rfl) (by decide)⟩⟩,
      ⟨⟨" ", by decide, List.all_eq_true.mp rfl⟩, "b", by decide, List.all_eq_true.mp rfl, none⟩]
  gap := ⟨" ", by decide, List.all_eq_true.mp rfl⟩
  closing := true

theorem crowdedTagRead :
    State.start.write "<Br A ='/>\"'\na=\t/é=&#60;/ b />" = ([.opened ⟨"br",
      [⟨"a", "/>\"", ⟨4, 12⟩⟩, ⟨"a", "/é=</", ⟨13, 26⟩⟩, ⟨"b", "", ⟨27, 28⟩⟩], ⟨0, 31⟩, true⟩],
      .ok ⟨31, [], none⟩) := by
  have text : crowded.text = "<Br A ='/>\"'\na=\t/é=&#60;/ b />".toList := by decide +kernel
  have read : crowded.read = ⟨"br",
      [⟨"a", "/>\"", ⟨4, 12⟩⟩, ⟨"a", "/é=</", ⟨13, 26⟩⟩, ⟨"b", "", ⟨27, 28⟩⟩], ⟨0, 31⟩, true⟩ := by
    decide +kernel
  have held : crowded.held = ⟨31, [], none⟩ := by decide +kernel
  have reads := crowded.writtenTagRead.1
  rwa [text, read, held] at reads

end WrittenTag

end ComponentFile.Markup
