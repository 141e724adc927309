import ComponentFile.Proofs.Markup.Respelled
import ComponentFile.Proofs.Section.Concatenation

/-! Extraction does not depend on how line breaks are written. From a document without carriage
returns, and from the same with a pair or a lone carriage return for every line feed, the same
sections come on the same lines, with their texts written as the document is. -/
namespace ComponentFile
open Markup (Event StartTag Attribute ParseError Corresponds)

def Inherits (ending source : Text) (events : List Event) (tag : Text) (stop : Nat)
    (attributes others : Table Text Text) : Prop :=
  ∃ start other : StartTag, .opened start ∈ events ∧ start.name = tag ∧ start.span.stop = stop ∧
    start.Respelled ending source other ∧
    attributes = Outline.distinct start.attributes ∧ others = Outline.distinct other.attributes

structure OpenRegion.Respelled (ending source : Text) (events : List Event) (tag : Text)
    (r q : OpenRegion) : Prop where
  depth : q.depth = r.depth
  content : q.contentStart = Text.placeIn ending source r.contentStart
  opening : q.openSpan = r.openSpan.respelled ending source
  attributes : Inherits ending source events tag r.contentStart r.attributes q.attributes

structure Section.Outlined (ending source : Text) (events : List Event) (s t : Section) : Prop where
  tag : t.tag = s.tag
  content : t.contentSpan = s.contentSpan.respelled ending source
  attributes : Inherits ending source events s.tag s.contentSpan.start s.attributes t.attributes

structure Outline.Respelled (ending source : Text) (events : List Event) (o p : Outline) :
    Prop where
  opened : Table.Related (OpenRegion.Respelled ending source events) o.opened p.opened
  sections : List.Forall₂ (Section.Outlined ending source events) o.sections p.sections

namespace Regions
variable {ending source : Text} {events : List Event}

section Steps
variable {o p : Outline}

theorem recordRespelled {other tag : Text} {attributes others : Table Text Text} (content : Span)
    (related : o.Respelled ending source events p)
    (inherits : Inherits ending source events tag content.start attributes others) :
    (o.record source tag attributes content).Respelled ending source events
      (p.record other tag others (content.respelled ending source)) where
  opened := related.opened
  sections := List.rel_append related.sections (.cons ⟨rfl, rfl, inherits⟩ .nil)

theorem enterRespelled {other : Text} {a b : StartTag} (listed : .opened a ∈ events)
    (tag : a.Respelled ending source b) (related : o.Respelled ending source events p) :
    (o.enter source a).Respelled ending source events (p.enter other b) := by
  have inherits : Inherits ending source events a.name a.span.stop
      (Outline.distinct a.attributes) (Outline.distinct b.attributes) :=
    ⟨a, b, listed, rfl, rfl, tag, rfl, rfl⟩
  have held := Table.getRelated related.opened a.name
  unfold Outline.enter
  rw [tag.name, tag.selfClosing, tag.span]
  generalize o.opened.get? a.name = r at held ⊢
  generalize p.opened.get? a.name = q at held ⊢
  cases held with
  | some region =>
    simp only
    split
    · exact related
    · refine ⟨Table.putRelated related.opened ?_, related.sections⟩
      exact ⟨congrArg (· + 1) region.depth, region.content, region.opening, region.attributes⟩
  | none =>
    simp only
    split
    · exact recordRespelled (Span.empty a.span.stop) related inherits
    · exact ⟨Table.putRelated related.opened ⟨rfl, rfl, rfl, inherits⟩, related.sections⟩

theorem leaveRespelled {other : Text} (name : Text) (span : Span)
    (related : o.Respelled ending source events p) :
    (o.leave source name span).Respelled ending source events
      (p.leave other name (span.respelled ending source)) := by
  have held := Table.getRelated related.opened name
  unfold Outline.leave
  generalize o.opened.get? name = r at held ⊢
  generalize p.opened.get? name = q at held ⊢
  cases held with
  | none => exact related
  | @some r q region =>
    simp only [region.depth]
    split
    · refine ⟨Table.putRelated related.opened ?_, related.sections⟩
      exact ⟨rfl, region.content, region.opening, region.attributes⟩
    · rw [region.content]
      have erased : Outline.Respelled ending source events
          { o with opened := o.opened.erase name } { p with opened := p.opened.erase name } :=
        ⟨Table.eraseRelated related.opened name, related.sections⟩
      exact recordRespelled ⟨r.contentStart, span.start⟩ erased region.attributes

theorem outlineStep {other : Text} {tags : List Text} {e f : Event} (listed : e ∈ events)
    (event : e.Respelled ending source f) (related : o.Respelled ending source events p) :
    (o.step tags source e).Respelled ending source events (p.step tags other f) := by
  cases event with
  | @opened a b tag =>
    simp only [Outline.step, tag.name]
    split
    · exact enterRespelled listed tag related
    · exact related
  | closed name span => exact leaveRespelled name span related
  | text span => exact related
  | comment span => exact related

end Steps

theorem runRespelled {other : Text} {tags : List Text} {found others : List Event}
    (listed : ∀ e ∈ found, e ∈ events)
    (h : List.Forall₂ (Event.Respelled ending source) found others) :
    (Outline.run tags source found).Respelled ending source events
      (Outline.run tags other others) := by
  have onward (o p : Outline) (related : o.Respelled ending source events p) :
      Outline.Respelled ending source events (found.foldl (Outline.step tags source) o)
        (others.foldl (Outline.step tags other) p) := by
    induction h generalizing o p with
    | nil => exact related
    | @cons e f found others first rest ih =>
      exact ih (fun d member => listed d (List.mem_cons_of_mem e member)) _ _
        (outlineStep (listed e List.mem_cons_self) first related)
  exact onward Outline.empty Outline.empty ⟨.nil, .nil⟩

theorem firstOpenRespelled (blank : Text.BlankEnding ending) {t u : Table Text OpenRegion}
    (h : Table.Related (OpenRegion.Respelled ending source events) t u) :
    Option.Rel (fun a b => b.1 = a.1 ∧ b.2.openSpan = a.2.openSpan.respelled ending source)
      (Outline.firstOpen? t) (Outline.firstOpen? u) := by
  induction h with
  | nil => exact .none
  | @cons a b t u first rest ih =>
    obtain ⟨k, r⟩ := a
    obtain ⟨l, q⟩ := b
    obtain ⟨same, region⟩ := first
    simp only at same region
    subst same
    simp only [Outline.firstOpen?]
    generalize Outline.firstOpen? t = x at ih ⊢
    generalize Outline.firstOpen? u = y at ih ⊢
    cases ih with
    | none => exact .some ⟨rfl, region.opening⟩
    | @some x y later =>
      have order : y.2.openSpan.start < q.openSpan.start ↔
          x.2.openSpan.start < r.openSpan.start := by
        rw [later.2, region.opening]
        exact (Text.placeInMono blank source).lt_iff_lt
      simp only [order]
      split
      · exact .some later
      · exact .some ⟨rfl, region.opening⟩

theorem resultRespelled (blank : Text.BlankEnding ending) {o p : Outline}
    (related : o.Respelled ending source events p) :
    Corresponds ending source (List.Forall₂ (Section.Outlined ending source events))
      o.result p.result := by
  have first := firstOpenRespelled blank related.opened
  unfold Outline.result
  generalize Outline.firstOpen? o.opened = x at first ⊢
  generalize Outline.firstOpen? p.opened = y at first ⊢
  cases first with
  | none => exact .ok related.sections
  | @some x y same =>
    obtain ⟨tag, r⟩ := x
    obtain ⟨other, q⟩ := y
    obtain ⟨rfl, opening⟩ := same
    simp only at opening ⊢
    rw [opening]
    exact .error _

section Attributes

theorem distinctGet (attributes : List Attribute) (name : Text) :
    (Outline.distinct attributes).get? name =
      (attributes.find? (·.name = name)).map Attribute.value := by
  rw [distinctExact]
  induction attributes with
  | nil => rfl
  | cons a rest ih =>
    rw [firstOfEach, Table.getCons, List.find?_cons]
    by_cases here : a.name = name
    · simp [here]
    · have other : (name != a.name) = true := by simpa using Ne.symm here
      have kept := Table.getFilter (fun k => k != a.name) (firstOfEach rest)
        fun k (same : (k == name) = true) => by rw [eq_of_beq same]
      simp only [beq_eq_false_iff_ne.mpr here, decide_eq_false here, Bool.false_eq_true, if_false]
      rw [kept, if_pos other, ih]

variable {as bs : List Attribute}
  (h : List.Forall₂ (Attribute.Respelled ending source) as bs)
include h

theorem distinctKeys : (Outline.distinct bs).keys = (Outline.distinct as).keys := by
  have onward (t u : Table Text Text) (same : u.keys = t.keys) :
      (bs.foldl (fun t b => t.putNew b.name b.value) u).keys =
        (as.foldl (fun t a => t.putNew a.name a.value) t).keys := by
    induction h generalizing t u with
    | nil => exact same
    | @cons a b as bs first rest ih =>
      apply ih
      rw [Table.keysPutNew, Table.keysPutNew, same, first.name]
  exact onward [] [] rfl

theorem findRespelled (name : Text) : Option.Rel (Attribute.Respelled ending source)
    (as.find? (·.name = name)) (bs.find? (·.name = name)) := by
  induction h with
  | nil => exact .none
  | @cons a b as bs first rest ih =>
    rw [List.find?_cons, List.find?_cons, first.name]
    split
    · exact .some first
    · exact ih

theorem valueKept {a : Attribute} (first : as.find? (·.name = a.name) = some a)
    (plain : ¬ Markup.BrokenValue source a.span) :
    (Outline.distinct bs).get? a.name = (Outline.distinct as).get? a.name := by
  have found := findRespelled h a.name
  rw [distinctGet, distinctGet]
  rw [first] at found ⊢
  generalize bs.find? (·.name = a.name) = other at found ⊢
  cases found with
  | some same => exact congrArg some (same.value.resolve_right plain)

end Attributes

end Regions

/- A section of the document and that of its other spelling. The values of attributes are the same
where no line feed stands in the attribute. -/
structure Section.Respelled (ending source : Text) (events : List Event) (s t : Section) :
    Prop where
  tag : t.tag = s.tag
  text : t.text = Text.respelled ending s.text
  offset : t.offset = s.offset
  content : t.contentSpan = s.contentSpan.respelled ending source
  names : t.attributes.keys = s.attributes.keys
  values : ∃ start : StartTag, .opened start ∈ events ∧ start.name = s.tag ∧
    start.span.stop = s.contentSpan.start ∧ s.attributes = Outline.distinct start.attributes ∧
    ∀ a ∈ start.attributes, start.attributes.find? (·.name = a.name) = some a →
      ¬ Markup.BrokenValue source a.span → t.attribute? a.name = s.attribute? a.name

namespace Regions
variable {ending source : Text} {tags requested : List Text}

theorem sectionsOutlined (blank : Text.BlankEnding ending)
    (valid : requestedTags tags = .ok requested) :
    (∃ events sections others, Markup.events source = .ok events ∧
        sectionsOf source tags = .ok sections ∧
        sectionsOf (Text.respelled ending source) tags = .ok others ∧
        List.Forall₂ (Section.Outlined ending source events) sections others) ∨
      ∃ e : ParseError, sectionsOf source tags = .error (.parse e) ∧
        sectionsOf (Text.respelled ending source) tags =
          .error (.parse (e.respelled ending source)) := by
  have read := Markup.eventsRespelled blank source
  generalize here : Markup.events source = x at read
  generalize there : Markup.events (Text.respelled ending source) = y at read
  cases read with
  | error e =>
    exact .inr ⟨e, sectionsOfUnread valid here, sectionsOfUnread valid there⟩
  | @ok events others related =>
    have listed : ∀ e ∈ Markup.withoutText events, e ∈ events :=
      fun e member => List.mem_of_mem_filter member
    have run : Outline.Respelled ending source events
        (Outline.run requested source (Markup.withoutText events))
        (Outline.run requested (Text.respelled ending source) (Markup.withoutText others)) :=
      runRespelled listed related
    rw [runTags, runTags] at run
    have result := resultRespelled blank run
    rw [sectionsOfRead valid here, sectionsOfRead valid there]
    generalize (Outline.run requested source events).result = x at result ⊢
    generalize (Outline.run requested _ others).result = y at result ⊢
    cases result with
    | error e => exact .inr ⟨e, rfl, rfl⟩
    | ok outlined => exact .inl ⟨events, _, _, rfl, rfl, rfl, outlined⟩

section Places
variable {sections others : List Section} {s t : Section}

theorem textRespelled (made : sectionsOf source tags = .ok sections) (member : s ∈ sections)
    (made' : sectionsOf (Text.respelled ending source) tags = .ok others) (member' : t ∈ others)
    (content : t.contentSpan = s.contentSpan.respelled ending source) :
    t.text = Text.respelled ending s.text := by
  obtain ⟨slice, _⟩ := sectionPlace made member
  obtain ⟨slice', _⟩ := sectionPlace made' member'
  obtain ⟨stands, stop⟩ := Text.standsSlice.mp slice
  have corresponds : t.contentSpan.slice? (Text.respelled ending source) =
      some (Text.respelled ending s.text) := by
    rw [content]
    refine Text.standsSlice.mpr ⟨Text.standsRespelled stands, ?_⟩
    rw [Span.respelledStop, ← stop, Text.standsPlace ending stands]
    rfl
  rw [slice'] at corresponds
  exact Option.some.inj corresponds

theorem lineRespelled (known : ending ∈ Text.lineEndings) (plain : '\r' ∉ source)
    (made : sectionsOf source tags = .ok sections) (member : s ∈ sections)
    (made' : sectionsOf (Text.respelled ending source) tags = .ok others) (member' : t ∈ others)
    (content : t.contentSpan = s.contentSpan.respelled ending source) :
    (Lines.ofText (Text.respelled ending source)).lineAt t.contentSpan.start =
      (Lines.ofText source).lineAt s.contentSpan.start := by
  obtain ⟨before, after, splits, place, _, line⟩ := sectionLine made member
  obtain ⟨before', after', splits', place', _, line'⟩ := sectionLine made' member'
  -- both beginnings of the other spelling are of one size
  have sizes : (Text.respelled ending before).size = Text.size before' := by
    rw [place', content, Span.respelledStart, ← place, splits, Text.placeInBehind]
  rw [splits, Text.respelledAppend] at splits'
  obtain ⟨between, rfl, _⟩ := Text.cutOrder splits' (Nat.le_of_eq sizes)
  have none : between = [] := by
    apply Text.sizeZero
    rw [Text.sizeAppend] at sizes
    omega
  have inFront : '\r' ∉ before := fun inside => plain (by rw [splits]; simp [inside])
  rw [line, line', none, List.append_nil, Lines.lineBreaksRespelled known inFront]

theorem outlinedRespelled {events : List Event} (known : ending ∈ Text.lineEndings)
    (plain : '\r' ∉ source)
    (made : sectionsOf source tags = .ok sections) (member : s ∈ sections)
    (made' : sectionsOf (Text.respelled ending source) tags = .ok others) (member' : t ∈ others)
    (outlined : Section.Outlined ending source events s t) :
    Section.Respelled ending source events s t := by
  obtain ⟨start, other, listed, named, stop, tag, attributes, attributes'⟩ := outlined.attributes
  have names : t.attributes.keys = s.attributes.keys := by
    rw [attributes, attributes', distinctKeys tag.attributes]
  have external : t.isExternal = s.isExternal := by
    unfold Section.isExternal
    rw [Table.containsKeys, Table.containsKeys, names]
  refine ⟨outlined.tag, textRespelled made member made' member' outlined.content, ?_,
    outlined.content, names, start, listed, named, stop, attributes, ?_⟩
  · have offset := (sectionPlace made member).2.offset
    have offset' := (sectionPlace made' member').2.offset
    rw [offset, offset', external,
      lineRespelled known plain made member made' member' outlined.content]
  · intro a inTag first noFeed
    unfold Section.attribute?
    rw [attributes, attributes']
    exact valueKept tag.attributes first noFeed

end Places

/- A document and the same with other line endings: one can be extracted from exactly when the other
can, and the sections then belong one to one; if not, both have the same fault at the same place. -/
theorem lineEndingsAlike (plain : '\r' ∉ source) (known : ending ∈ Text.lineEndings)
    (valid : requestedTags tags = .ok requested) :
    ((∃ sections, sectionsOf source tags = .ok sections) ↔
        ∃ others, sectionsOf (Text.respelled ending source) tags = .ok others) ∧
      (∀ sections others, sectionsOf source tags = .ok sections →
        sectionsOf (Text.respelled ending source) tags = .ok others →
        ∃ events, Markup.events source = .ok events ∧
          List.Forall₂ (Section.Respelled ending source events) sections others) ∧
      ∀ e f, sectionsOf source tags = .error e →
        sectionsOf (Text.respelled ending source) tags = .error f →
        ∃ p q : ParseError, e = .parse p ∧ f = .parse q ∧ q.fault = p.fault ∧
          q.span = p.span.respelled ending source := by
  rcases sectionsOutlined (Text.lineEndingBlank known) valid with
    ⟨events, sections, others, read, made, made', outlined⟩ | ⟨p, failed, failed'⟩
  · rw [made, made']
    refine ⟨by simp, ?_, by simp⟩
    rintro _ _ ⟨⟩ ⟨⟩
    refine ⟨events, read, (relatedZip outlined).imp ?_⟩
    rintro s t ⟨pair, here⟩
    obtain ⟨member, member'⟩ := List.of_mem_zip pair
    exact outlinedRespelled known plain made member made' member' here
  · rw [failed, failed']
    refine ⟨by simp, by simp, ?_⟩
    rintro _ _ ⟨⟩ ⟨⟩
    exact ⟨p, _, rfl, rfl, rfl, rfl⟩

theorem pairsForFeeds :
    '\r' ∉ "\n<T\na='1\n2' b\n=\"3\">x\ny</t\n>\n<t/>".toList ∧
      sectionsOf "\n<T\na='1\n2' b\n=\"3\">x\ny</t\n>\n<t/>" ["t"] =
        .ok [⟨"t", "x\ny", [("a", "1\n2"), ("b", "3")], 5, ⟨19, 22⟩⟩, ⟨"t", [], [], 8, ⟨32, 32⟩⟩] ∧
      ∃ others,
        sectionsOf (Text.respelled "\r\n" "\n<T\na='1\n2' b\n=\"3\">x\ny</t\n>\n<t/>") ["t"] =
          .ok others ∧ others.map Section.text = [Text.respelled "\r\n" "x\ny", []] ∧
        others.map Section.offset = [5, 8] ∧
        others.map (fun t => t.attributes.keys) = [["a".toList, "b".toList], []] := by
  have plain : '\r' ∉ "\n<T\na='1\n2' b\n=\"3\">x\ny</t\n>\n<t/>".toList := by decide
  have valid : requestedTags ["t"] = .ok ["t"] := by decide
  have made : sectionsOf "\n<T\na='1\n2' b\n=\"3\">x\ny</t\n>\n<t/>" ["t"] =
      .ok [⟨"t", "x\ny", [("a", "1\n2"), ("b", "3")], 5, ⟨19, 22⟩⟩,
        ⟨"t", [], [], 8, ⟨32, 32⟩⟩] := by decide +kernel
  have alike := @lineEndingsAlike "\r\n" "\n<T\na='1\n2' b\n=\"3\">x\ny</t\n>\n<t/>" ["t"] ["t"]
    plain (by decide) valid
  obtain ⟨success, each, _⟩ := alike
  obtain ⟨others, made'⟩ := success.mp ⟨_, made⟩
  obtain ⟨events, _, related⟩ := each _ others made made'
  refine ⟨plain, made, others, made', ?_⟩
  cases related with
  | cons first rest =>
    cases rest with
    | cons second none =>
      cases none
      simp only [List.map_cons, List.map_nil, first.text, second.text, first.offset, second.offset,
        first.names, second.names]
      exact ⟨rfl, trivial, rfl⟩

end Regions
end ComponentFile
