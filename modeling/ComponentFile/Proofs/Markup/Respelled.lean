import ComponentFile.Proofs.Markup.Concatenation
import ComponentFile.Proofs.Markup.RawText
import ComponentFile.Proofs.Markup.RespelledTags

/-! Reading a document whose line feeds are written in another way. Every construct begins and ends
with characters that are not blank, and within one all blanks are alike, so the events correspond
one to one, at corresponding places, and so does an error. -/
namespace ComponentFile.Markup
open Text (BlankEnding Stands placeIn)

structure StartTag.Respelled (ending document : Text) (a b : StartTag) : Prop where
  name : b.name = a.name
  attributes : List.Forall₂ (Attribute.Respelled ending document) a.attributes b.attributes
  span : b.span = a.span.respelled ending document
  selfClosing : b.selfClosing = a.selfClosing

inductive Event.Respelled (ending document : Text) : Event → Event → Prop where
  | opened {a b : StartTag} (tag : a.Respelled ending document b) :
      Event.Respelled ending document (.opened a) (.opened b)
  | closed (name span) : Event.Respelled ending document (.closed name span)
      (.closed name (span.respelled ending document))
  | text (span) : Event.Respelled ending document (.text span)
      (.text (span.respelled ending document))
  | comment (span) : Event.Respelled ending document (.comment span)
      (.comment (span.respelled ending document))

def State.respelled (ending document : Text) (s : State) : State :=
  ⟨placeIn ending document s.pos, Text.respelled ending s.pending, s.raw⟩

inductive Step.Respelled (ending document : Text) : Step → Step → Prop where
  | wait : Step.Respelled ending document .wait .wait
  | failed (e) : Step.Respelled ending document (.failed e) (.failed (e.respelled ending document))
  | emit {a b} (event : a.Respelled ending document b) (next) :
      Step.Respelled ending document (.emit a next) (.emit b (next.respelled ending document))

variable {ending document : Text}

theorem blankEndsTagName {c : Char} (here : Text.isBlank c = true) :
    State.endsTagName c = true := by
  simp [State.endsTagName, here]

section RawText
variable {name : Text} (blank : BlankEnding ending) (known : name ∈ rawElements)

def RawEnd.respelled (ending : Text) : RawEnd → RawEnd
  | .found before rest => .found (Text.respelled ending before) (Text.respelled ending rest)
  | other => other

include known in
theorem rawNameSolid {close : Text} (same : Text.lower close = name) :
    ∀ c ∈ close, Text.isBlank c = false := by
  intro c member
  by_contra blankHere
  have apart := Text.blankEvery (p := fun c => c.toLower = c && rawElements.all (!·.contains c)) rfl
    (by simpa using blankHere)
  have still : c.toLower = c := by simpa using (Bool.and_eq_true_iff.mp apart).1
  have foreign : ∀ element ∈ rawElements, c ∉ element := by
    simpa using (Bool.and_eq_true_iff.mp apart).2
  exact State.rawElementClean known same still foreign member

include blank known

theorem beginsRespelled {t : Text} :
    BeginsEndTag name (Text.respelled ending t) ↔ BeginsEndTag name t := by
  have decided (head : Option Char) : (∀ d ∈ head, State.endsTagName d = true) ↔
      (head.map State.endsTagName).getD true = true := by
    cases head <;> simp
  have ends (after : Text) :
      (∀ d ∈ (Text.respelled ending after).head?, State.endsTagName d = true) ↔
        ∀ d ∈ after.head?, State.endsTagName d = true := by
    rw [decided, decided, Text.respelledHead blank after fun c => blankEndsTagName]
  constructor
  · rintro ⟨close, after, splits, same, next⟩
    have solid : ∀ c ∈ '<' :: '/' :: close, Text.isBlank c = false := by
      simpa [Text.isBlank] using rawNameSolid known same
    obtain ⟨rest, rfl, rfl⟩ := Text.respelledFront blank solid splits
    exact ⟨close, rest, rfl, same, (ends rest).mp next⟩
  · rintro ⟨close, after, rfl, same, next⟩
    have solid : ∀ c ∈ '<' :: '/' :: close, Text.isBlank c = false := by
      simpa [Text.isBlank] using rawNameSolid known same
    refine ⟨close, Text.respelled ending after, ?_, same, (ends after).mpr next⟩
    rw [Text.respelledAppend, Text.respelledSolid solid]

omit known blank in
theorem rawEndBehind {front t : Text} (all : ∀ c ∈ front, Text.isBlank c = true) :
    rawEnd name true (front ++ t) = front.foldr RawEnd.after (rawEnd name true t) := by
  induction front with
  | nil => rfl
  | cons c more ih =>
    have notHere : ¬ BeginsEndTag name (c :: (more ++ t)) := by
      rintro ⟨close, after, same, _, _⟩
      obtain ⟨rfl, _⟩ := List.cons.inj same
      exact absurd (all '<' List.mem_cons_self) (by decide)
    rw [List.cons_append, rawEndLater notHere,
      ih fun d member => all d (List.mem_cons_of_mem c member)]
    rfl

omit known blank in
theorem afterRespelled (c : Char) (r : RawEnd) : (r.after c).respelled ending =
    (Text.spelled ending c).foldr RawEnd.after (r.respelled ending) := by
  cases r with
  | found before rest =>
    have behind (front : Text) : front.foldr RawEnd.after
        (.found (Text.respelled ending before) (Text.respelled ending rest)) =
          .found (front ++ Text.respelled ending before) (Text.respelled ending rest) := by
      induction front with
      | nil => rfl
      | cons d more ih => rw [List.foldr_cons, ih]; rfl
    exact (behind (Text.spelled ending c)).symm
  | wait => exact (List.foldr_fixed' (fun _ => rfl) _).symm
  | missing => exact (List.foldr_fixed' (fun _ => rfl) _).symm

theorem rawEndRespelled (t : Text) :
    rawEnd name true (Text.respelled ending t) = (rawEnd name true t).respelled ending := by
  induction t with
  | nil => rfl
  | cons c rest ih =>
    cases here : Text.isBlank c with
    | true =>
      have all : ∀ d ∈ [c], Text.isBlank d = true := by simpa using here
      have later : rawEnd name true (c :: rest) = (rawEnd name true rest).after c :=
        rawEndBehind all
      rw [Text.respelledCons, rawEndBehind (Text.spelledBlank blank here), ih, later,
        afterRespelled]
    | false =>
      have other := Text.solidOther here
      have same := beginsRespelled blank known (t := c :: rest)
      rw [Text.respelledOther rest other] at same ⊢
      by_cases begins : BeginsEndTag name (c :: rest)
      · rw [rawEndHere begins, rawEndHere (same.mpr begins), RawEnd.respelled,
          Text.respelledOther rest other]
        rfl
      · rw [rawEndLater begins, rawEndLater (mt same.mp begins), ih, afterRespelled,
          Text.spelledOther other]
        rfl

end RawText

namespace State

section Places
variable {s : State}

@[simp] theorem respelledPos :
    (s.respelled ending document).pos = placeIn ending document s.pos := rfl

@[simp] theorem respelledPending :
    (s.respelled ending document).pending = Text.respelled ending s.pending := rfl

@[simp] theorem respelledRaw : (s.respelled ending document).raw = s.raw := rfl

variable (ending)

theorem spanRespelled {taken : Text} (stands : Stands document s.pos taken) :
    (s.respelled ending document).spanOf (Text.respelled ending taken) =
      (s.spanOf taken).respelled ending document := by
  have place := Text.standsPlace ending stands
  simp [spanOf, Span.respelled, place]

theorem movedRespelled {taken : Text} (rest : Text) (stands : Stands document s.pos taken) :
    (s.respelled ending document).moved (Text.respelled ending taken) (Text.respelled ending rest) =
      (s.moved taken rest).respelled ending document := by
  have place := Text.standsPlace ending stands
  simp [moved, State.respelled, place]

theorem emitRespelled {event : Span → Event} {taken : Text} (rest : Text)
    (alike : ∀ span, (event span).Respelled ending document
      (event (span.respelled ending document)))
    (stands : Stands document s.pos taken) :
    Step.Respelled ending document (.emit (event (s.spanOf taken)) (s.moved taken rest))
      (.emit (event ((s.respelled ending document).spanOf (Text.respelled ending taken)))
        ((s.respelled ending document).moved (Text.respelled ending taken)
          (Text.respelled ending rest))) := by
  rw [spanRespelled ending stands, movedRespelled ending rest stands]
  exact .emit (alike _) _

theorem awaitingRespelled (awaited : Awaited) (stands : Stands document s.pos s.pending) :
    Step.Respelled ending document (s.awaiting true awaited)
      ((s.respelled ending document).awaiting true awaited) := by
  have failed := @Step.Respelled.failed ending document
    ⟨.unexpectedEnd awaited, s.spanOf s.pending⟩
  unfold awaiting
  rw [respelledPending, spanRespelled ending stands]
  exact failed

end Places

def opens (s : State) (name inside after : Text) (made : List Attribute × Bool) : Step :=
  let tag : StartTag := ⟨Text.lower name, made.1, s.spanOf ('<' :: name ++ inside), made.2⟩
  .emit (.opened tag) { s.moved ('<' :: name ++ inside) after with
    raw := if !made.2 && rawElements.contains tag.name then some tag.name else none }

theorem opensRespelled {s : State} {name inside : Text} {made others : List Attribute × Bool}
    (after : Text) (kept : Text.respelled ending name = name)
    (listed : Attributes.Listed ending document made others)
    (stands : Stands document s.pos ('<' :: name ++ inside)) :
    Step.Respelled ending document (s.opens name inside after made)
      ((s.respelled ending document).opens name (Text.respelled ending inside)
        (Text.respelled ending after) others) := by
  have written : Text.respelled ending ('<' :: name ++ inside) =
      '<' :: name ++ Text.respelled ending inside := by
    simp [Text.respelledOther, kept]
  have span := spanRespelled ending stands
  have moved := movedRespelled ending after stands
  rw [written] at span moved
  have tag : StartTag.Respelled ending document
      ⟨Text.lower name, made.1, s.spanOf ('<' :: name ++ inside), made.2⟩
      ⟨Text.lower name, others.1, (s.spanOf ('<' :: name ++ inside)).respelled ending document,
        made.2⟩ := ⟨rfl, listed.attributes, rfl, rfl⟩
  unfold opens
  rw [span, moved, listed.closing]
  exact .emit (.opened tag) _

def closes (s : State) (inner after : Text) : Step :=
  if (inner.head?.map Char.isAlpha).getD false then
    .emit (.closed (Text.lower (inner.takeWhile fun c => !(Text.isBlank c || c = '/')))
      (s.spanOf ('<' :: '/' :: inner ++ ['>']))) (s.moved ('<' :: '/' :: inner ++ ['>']) after)
  else s.emitComment ('<' :: '/' :: inner ++ ['>']) after

theorem endTagCloses {s : State} {rest : Text} (pending : s.pending = '<' :: '/' :: rest) :
    s.endTag true =
      match Text.breakOn? ['>'] rest with
      | none => s.awaiting true .endTagEnd
      | some (inner, found) => s.closes inner (found.drop 1) := by
  have angle : Text.breakOn? ['>'] ('<' :: '/' :: rest) =
      (Text.breakOn? ['>'] rest).map (Text.behindFront ['<', '/']) := by
    rw [Text.breakOn?, if_neg (by simp), Text.breakOn?, if_neg (by simp)]
    cases Text.breakOn? ['>'] rest <;> rfl
  unfold endTag
  rw [pending, angle]
  cases Text.breakOn? ['>'] rest <;> rfl

def named (s : State) (name afterName : Text) : Step :=
  match tagEnd? none afterName with
  | none => s.awaiting true (.namedTagEnd name)
  | some (inside, after) =>
      match Attributes.read (Token.scan (s.pos + 1 + Text.size name) inside) with
      | .error e => .failed e
      | .ok made => s.opens name inside after made

theorem startTagNamed {s : State} {rest name afterName : Text} (pending : s.pending = '<' :: rest)
    (taken : rest.takeWhile (fun c => !endsTagName c) = name)
    (dropped : rest.dropWhile (fun c => !endsTagName c) = afterName) :
    s.startTag true =
      if afterName.isEmpty then s.awaiting true .startTagEnd
      else if name.any spoilsTagName then
        .failed ⟨.invalidTagName name, ⟨s.pos + 1, s.pos + 1 + Text.size name⟩⟩
      else s.named name afterName := by
  unfold startTag named
  simp only [pending, List.drop_succ_cons, List.drop_zero, taken, dropped]
  cases tagEnd? none afterName with
  | none => rfl
  | some parts =>
    cases outcome : Attributes.read (Token.scan (s.pos + 1 + Text.size name) parts.1) with
    | error e => simp only [outcome]
    | ok made => simp only [outcome, opens]

theorem tagNamePlaces {s : State} {name : Text} (kept : Text.respelled ending name = name)
    (stands : Stands document s.pos ('<' :: name)) :
    placeIn ending document (s.pos + 1) = placeIn ending document s.pos + 1 ∧
      placeIn ending document (s.pos + 1 + Text.size name) =
        placeIn ending document s.pos + 1 + Text.size name := by
  have angle : placeIn ending document (s.pos + 1) = placeIn ending document s.pos + 1 :=
    Text.standsPlace ending (Text.standsFront (a := ['<']) stands)
  have fromName : Stands document (s.pos + 1) name := Text.standsBehind (a := ['<']) stands
  have nameStop := Text.standsPlace ending fromName
  rw [kept, angle] at nameStop
  exact ⟨angle, nameStop⟩

section Constructs
variable {s : State} (blank : BlankEnding ending)
include blank

theorem declarationUntilRespelled {front rest terminator : Text}
    (pending : s.pending = front ++ rest) (solid : ∀ c ∈ front, Text.isBlank c = false)
    (nonempty : terminator ≠ []) (closing : ∀ c ∈ terminator, Text.isBlank c = false)
    (stands : Stands document s.pos s.pending) :
    Step.Respelled ending document (s.declarationUntil true front.length terminator)
      ((s.respelled ending document).declarationUntil true front.length terminator) := by
  have other : (s.respelled ending document).pending = front ++ Text.respelled ending rest := by
    simp [pending, Text.respelledSolid solid]
  have awaits := awaitingRespelled ending (.declarationEnd terminator) stands
  unfold declarationUntil
  rw [other, pending, List.drop_left, List.drop_left, List.take_left, List.take_left,
    Text.breakOnRespelled blank nonempty closing]
  cases here : Text.breakOn? terminator rest with
  | none => exact awaits
  | some parts =>
    obtain ⟨before, found⟩ := parts
    obtain ⟨after, rfl⟩ := List.isPrefixOf_iff_prefix.mp (Text.breakOnStarts here)
    have splits := Text.breakOnSplits here
    simp only [Option.map_some, Text.respelledBoth, Text.respelledAppend,
      Text.respelledSolid closing, List.drop_left]
    have taken : Stands document s.pos (front ++ before ++ terminator) := by
      apply Text.standsFront (b := after)
      rw [pending, ← splits] at stands
      simpa using stands
    have emits := emitRespelled ending after .comment taken
    simpa [emitComment, Text.respelledSolid solid, Text.respelledSolid closing] using emits

theorem declarationRespelled {c : Char} {rest : Text} (pending : s.pending = '<' :: c :: rest)
    (marked : c = '!' ∨ c = '?') (stands : Stands document s.pos s.pending) :
    Step.Respelled ending document (s.declaration true)
      ((s.respelled ending document).declaration true) := by
  have solid : ∀ c ∈ "<!--".toList, Text.isBlank c = false := Text.solidText rfl
  have same := Text.prefixRespelled blank solid s.pending
  unfold declaration
  simp only [Bool.not_true, Bool.false_and, Bool.false_eq_true, if_false]
  rw [respelledPending, same]
  split
  · rename_i comment
    obtain ⟨after, splits⟩ := List.isPrefixOf_iff_prefix.mp comment
    exact declarationUntilRespelled blank splits.symm solid (by decide) (Text.solidText rfl) stands
  · have solid : ∀ d ∈ ['<', c], Text.isBlank d = false := by
      apply Text.solidText
      rcases marked with rfl | rfl <;> rfl
    have splits : s.pending = ['<', c] ++ rest := pending
    exact declarationUntilRespelled blank splits solid (by decide) (Text.solidText rfl) stands

theorem closesRespelled {inner : Text} (after : Text)
    (stands : Stands document s.pos ('<' :: '/' :: inner ++ ['>'])) :
    Step.Respelled ending document (s.closes inner after)
      ((s.respelled ending document).closes (Text.respelled ending inner)
        (Text.respelled ending after)) := by
  have closed := fun name => emitRespelled ending after (.closed name) stands
  have comment := emitRespelled ending after .comment stands
  have written : Text.respelled ending ('<' :: '/' :: inner ++ ['>']) =
      '<' :: '/' :: Text.respelled ending inner ++ ['>'] := by
    simp [Text.respelledOther, Text.respelledAppend]
  simp only [written] at closed comment
  have alphaNot (c : Char) (here : Text.isBlank c = true) : c.isAlpha = false := by
    simpa using Text.blankEvery (p := fun c => !c.isAlpha) rfl here
  have stops (c : Char) (here : Text.isBlank c = true) :
      (!(Text.isBlank c || c = '/')) = false := by
    simp [here]
  unfold closes
  rw [Text.respelledHead blank inner alphaNot, (Text.takeWhileRespelled blank stops inner).1,
    Text.takeWhileSolid stops]
  split
  · exact closed _
  · exact comment

theorem endTagRespelled {rest : Text} (pending : s.pending = '<' :: '/' :: rest)
    (stands : Stands document s.pos s.pending) :
    Step.Respelled ending document (s.endTag true) ((s.respelled ending document).endTag true) := by
  have other : (s.respelled ending document).pending =
      '<' :: '/' :: Text.respelled ending rest := by
    simp [pending, Text.respelledOther]
  have awaits := awaitingRespelled ending .endTagEnd stands
  rw [endTagCloses pending, endTagCloses other,
    Text.breakOnRespelled blank (by decide) (Text.solidText rfl)]
  cases here : Text.breakOn? ['>'] rest with
  | none => exact awaits
  | some parts =>
    obtain ⟨inner, found⟩ := parts
    obtain ⟨after, rfl⟩ := List.isPrefixOf_iff_prefix.mp (Text.breakOnStarts here)
    have taken : Stands document s.pos ('<' :: '/' :: inner ++ ['>']) := by
      apply Text.standsFront (b := after)
      rw [pending, ← Text.breakOnSplits here] at stands
      simpa using stands
    have behind : Text.respelled ending ('>' :: after) = '>' :: Text.respelled ending after :=
      Text.respelledOther after (by decide)
    have closes := closesRespelled blank after taken
    simpa only [Option.map_some, Text.respelledBoth, List.cons_append, List.nil_append, behind,
      List.drop_succ_cons, List.drop_zero] using closes

theorem namedRespelled {name afterName : Text} (pending : s.pending = '<' :: name ++ afterName)
    (kept : Text.respelled ending name = name) (stands : Stands document s.pos s.pending) :
    Step.Respelled ending document (s.named name afterName)
      ((s.respelled ending document).named name (Text.respelled ending afterName)) := by
  have awaits := awaitingRespelled ending (.namedTagEnd name) stands
  rw [pending] at stands
  obtain ⟨_, nameStop⟩ := tagNamePlaces kept (Text.standsFront stands)
  unfold named
  rw [tagEndRespelled blank (by simp)]
  cases here : tagEnd? none afterName with
  | none => exact awaits
  | some parts =>
    obtain ⟨inside, after⟩ := parts
    rw [← tagEndSplits here, ← List.append_assoc] at stands
    have taken := Text.standsFront stands
    have inTag : Stands document (s.pos + 1 + Text.size name) inside := by
      have behind := Text.standsBehind taken
      rwa [Text.sizeCons, ← Nat.add_assoc] at behind
    have read := insideRespelled blank inTag
    rw [nameStop] at read
    simp only [Option.map_some, Text.respelledBoth, respelledPos]
    generalize Attributes.read (Token.scan (s.pos + 1 + Text.size name) inside) = made at read ⊢
    generalize Attributes.read (Token.scan _ (Text.respelled ending inside)) = others at read ⊢
    cases read with
    | error e => exact .failed e
    | ok listed => exact opensRespelled after kept listed taken

theorem startTagRespelled {rest : Text} (pending : s.pending = '<' :: rest)
    (stands : Stands document s.pos s.pending) :
    Step.Respelled ending document (s.startTag true)
      ((s.respelled ending document).startTag true) := by
  have other : (s.respelled ending document).pending = '<' :: Text.respelled ending rest := by
    simp [pending, Text.respelledOther]
  have awaits := awaitingRespelled ending .startTagEnd stands
  have stops (c : Char) (here : Text.isBlank c = true) : (!endsTagName c) = false := by
    simp [blankEndsTagName here]
  obtain ⟨taken, dropped⟩ := Text.takeWhileRespelled blank stops rest
  have kept : Text.respelled ending (rest.takeWhile fun c => !endsTagName c) =
      rest.takeWhile fun c => !endsTagName c := Text.takeWhileSolid stops rest
  have splits := List.takeWhile_append_dropWhile (p := fun c => !endsTagName c) (l := rest)
  rw [startTagNamed pending rfl rfl, startTagNamed other (taken.trans kept) dropped]
  generalize rest.takeWhile (fun c => !endsTagName c) = name at kept splits ⊢
  generalize rest.dropWhile (fun c => !endsTagName c) = afterName at splits ⊢
  have whole : s.pending = '<' :: name ++ afterName := by
    rw [pending, ← splits]
    rfl
  have ended : (Text.respelled ending afterName).isEmpty = afterName.isEmpty := by
    rw [Bool.eq_iff_iff, List.isEmpty_iff, List.isEmpty_iff]
    exact Text.respelledEmpty blank
  rw [ended]
  split
  · exact awaits
  · split
    · rw [whole] at stands
      obtain ⟨angle, nameStop⟩ := tagNamePlaces kept (Text.standsFront stands)
      have failed := @Step.Respelled.failed ending document
        ⟨.invalidTagName name, ⟨s.pos + 1, s.pos + 1 + Text.size name⟩⟩
      simpa [ParseError.respelled, Span.respelled, nameStop, angle] using failed
    · exact namedRespelled blank whole kept stands

theorem constructRespelled {rest : Text} (pending : s.pending = '<' :: rest)
    (stands : Stands document s.pos s.pending) :
    Step.Respelled ending document (s.construct true rest)
      ((s.respelled ending document).construct true (Text.respelled ending rest)) := by
  have lone : Stands document s.pos ['<'] := by
    apply Text.standsFront (b := rest)
    rwa [pending] at stands
  have text : Step.Respelled ending document (s.emitText ['<'] rest)
      ((s.respelled ending document).emitText ['<'] (Text.respelled ending rest)) :=
    emitRespelled ending rest .text lone
  rcases Text.respelledStart blank rest with
    rfl | ⟨c, more, rfl, solid, same⟩ | ⟨c, more, d, behind, rfl, first, second, same⟩
  · exact text
  · rw [same] at text ⊢
    simp only [construct]
    split
    · rename_i marked
      exact declarationRespelled blank pending marked stands
    · split
      · rename_i slash
        subst slash
        exact endTagRespelled blank pending stands
      · split
        · exact startTagRespelled blank pending stands
        · exact text
  · have apart {c : Char} (here : Text.isBlank c = true) :
        ¬ (c = '!' ∨ c = '?') ∧ c ≠ '/' ∧ c.isAlpha = false := by
      simpa using Text.blankEvery
        (p := fun c => !(c = '!' || c = '?') && (c ≠ '/' && !c.isAlpha)) rfl here
    rw [same] at text ⊢
    simpa only [construct, apart first, apart second, if_false, Bool.false_eq_true] using text

theorem plainRespelled (stands : Stands document s.pos s.pending) :
    Step.Respelled ending document (s.plain true) ((s.respelled ending document).plain true) := by
  have apart {c : Char} (here : Text.isBlank c = true) : c ≠ '<' := by
    rintro rfl
    contradiction
  have text : Step.Respelled ending document
      (s.emitText (s.pending.takeWhile (· ≠ '<')) (s.pending.dropWhile (· ≠ '<')))
      ((s.respelled ending document).emitText
        ((Text.respelled ending s.pending).takeWhile (· ≠ '<'))
        ((Text.respelled ending s.pending).dropWhile (· ≠ '<'))) := by
    obtain ⟨taken, dropped⟩ := Text.takeWhileRespelled blank (b := true)
      (p := (· ≠ '<')) (fun c here => by simpa using apart here) s.pending
    rw [taken, dropped]
    refine emitRespelled ending _ .text ?_
    apply Text.standsFront (b := s.pending.dropWhile (· ≠ '<'))
    rwa [List.takeWhile_append_dropWhile]
  unfold plain
  rw [respelledPending]
  rcases Text.respelledStart blank s.pending with
    empty | ⟨c, rest, pending, solid, same⟩ | ⟨c, rest, d, behind, pending, first, second, same⟩
  · rw [empty]
    exact .wait
  · rw [same] at text ⊢
    rw [pending] at text ⊢
    simp only
    split
    · rename_i angle
      subst angle
      exact constructRespelled blank pending stands
    · exact text
  · rw [same] at text ⊢
    rw [pending] at text ⊢
    simpa only [if_neg (apart first), if_neg (apart second)] using text

theorem stepRespelled (known : s.RawKnown) (stands : Stands document s.pos s.pending) :
    Step.Respelled ending document (s.step true) ((s.respelled ending document).step true) := by
  have plain := plainRespelled blank stands
  unfold step
  rw [respelledRaw, respelledPending]
  cases raw : s.raw with
  | none => exact plain
  | some name =>
    simp only [rawEndRespelled blank (known name raw)]
    cases here : rawEnd name true s.pending with
    | wait => exact .wait
    | missing =>
      have failed := @Step.Respelled.failed ending document
        ⟨.unclosedTag name, s.spanOf s.pending⟩
      simp only [RawEnd.respelled, spanRespelled ending stands]
      exact failed
    | found before rest =>
      simp only [RawEnd.respelled]
      cases before with
      | nil => exact plain
      | cons c more =>
        have splits := rawEndSplits here
        have inFront : Stands document s.pos (c :: more) := by
          apply Text.standsFront (b := rest)
          rwa [splits]
        have text := emitRespelled ending rest .text inFront
        cases written : Text.respelled ending (c :: more) with
        | nil => exact absurd ((Text.respelledEmpty blank).mp written) (by simp)
        | cons d behind =>
          rw [written] at text
          exact text

end Constructs

theorem takesStands {s next : State} {taken : Text} {e : Event} (takes : Takes s taken e next)
    (stands : Stands document s.pos s.pending) : Stands document next.pos next.pending := by
  rw [takes.splits] at stands
  rw [takes.moves]
  exact Text.standsBehind stands

theorem traceRespelled (blank : BlankEnding ending) {s : State} {events : List Event}
    {last : Except ParseError State} (h : Trace true s events last) (known : s.RawKnown)
    (stands : Stands document s.pos s.pending) :
    ∃ others outcome, Trace true (s.respelled ending document) others outcome ∧
      List.Forall₂ (Event.Respelled ending document) events others ∧
      Corresponds ending document (fun a b => b = a.respelled ending document) last outcome := by
  induction h with
  | @wait s here =>
    have step := stepRespelled blank known stands
    rw [here] at step
    generalize there : (s.respelled ending document).step true = other at step
    cases step with
    | wait => exact ⟨_, _, .wait there, .nil, .ok rfl⟩
  | @failed s e here =>
    have step := stepRespelled blank known stands
    rw [here] at step
    generalize there : (s.respelled ending document).step true = other at step
    cases step with
    | failed e => exact ⟨_, _, .failed there, .nil, .error e⟩
  | @emit s e next events last here tail ih =>
    have step := stepRespelled blank known stands
    rw [here] at step
    generalize there : (s.respelled ending document).step true = other at step
    obtain ⟨taken, takes⟩ := stepTakes here
    obtain ⟨others, outcome, trace, related, ended⟩ := ih takes.raw (takesStands takes stands)
    cases step with
    | emit event next => exact ⟨_, _, .emit there trace, .cons event related, ended⟩

end State

theorem eventsOfFailed {document : Text} {found : List Event} {e : ParseError}
    (read : (State.start.extend document).drain true = (found, .error e)) :
    events document = .error e := by
  have alike := State.feedAlike State.start [document]
  rw [List.flatten_singleton, read] at alike
  unfold events
  generalize State.start.feed [document] = fed at alike
  obtain ⟨whole, outcome⟩ := fed
  have ended : outcome = .error e := alike.2
  subst ended
  rfl

theorem withoutTextRespelled {events others : List Event}
    (h : List.Forall₂ (Event.Respelled ending document) events others) :
    List.Forall₂ (Event.Respelled ending document) (withoutText events) (withoutText others) := by
  refine List.rel_filter (fun a b related => ?_) h
  cases related <;> rfl

theorem eventsRespelled (blank : BlankEnding ending) (document : Text) :
    Corresponds ending document
      (fun found others => List.Forall₂ (Event.Respelled ending document)
        (withoutText found) (withoutText others))
      (events document) (events (Text.respelled ending document)) := by
  have start : (State.start.extend document).respelled ending document =
      State.start.extend (Text.respelled ending document) := by
    simp [State.respelled, State.extend, State.start, Text.placeInStart]
  have stands : Stands document 0 document := ⟨[], [], by simp, rfl⟩
  obtain ⟨others, outcome, trace, related, ended⟩ :=
    State.traceRespelled blank (State.drainTrace true (State.start.extend document))
      (by simp [State.RawKnown, State.start]) stands
  rw [start] at trace
  have drained := State.traceDrain trace
  generalize read : (State.start.extend document).drain true = reading at related ended
  obtain ⟨found, last⟩ := reading
  cases ended with
  | error e =>
    rw [eventsOfFailed read, eventsOfFailed drained]
    exact .error e
  | ok same =>
    obtain ⟨whole, delivered, tags⟩ := eventsOfDrain read
    obtain ⟨others', delivered', tags'⟩ := eventsOfDrain drained
    rw [delivered, delivered']
    refine .ok ?_
    rw [tags, tags']
    exact withoutTextRespelled related

end ComponentFile.Markup
