import ComponentFile.Proofs.Markup.Concatenation
import ComponentFile.Proofs.Section.Offsets

/-! Extraction from documents one after the other. The second document is extracted from as if it
stood alone, with its places moved behind the first; the sections of the first stay as they are. -/
namespace ComponentFile

def Section.behind (a : Text) (s : Section) : Section :=
  { s with
    offset := if s.isExternal then 0 else s.offset + a.lineBreaks
    contentSpan := s.contentSpan.shift a.size }

def OpenRegion.shift (n : Nat) (r : OpenRegion) : OpenRegion :=
  { r with contentStart := n + r.contentStart, openSpan := r.openSpan.shift n }

namespace Regions
open Markup (Event StartTag Attribute)

def placed (source : Text) (n : Nat) (s : Section) : Section :=
  { s with
    text := ((s.contentSpan.shift n).slice? source).getD []
    offset := if s.isExternal then 0 else (Lines.ofText source).lineAt (n + s.contentSpan.start) + 1
    contentSpan := s.contentSpan.shift n }

def carried (source : Text) (front : List Section) (n : Nat) (o : Outline) : Outline :=
  ⟨o.opened.mapValues (OpenRegion.shift n), front ++ o.sections.map (placed source n)⟩

section Carried
variable {a b : Text} {tags : List Text} {front : List Section} {n : Nat}

theorem carriedGet (o : Outline) (tag : Text) :
    (carried b front n o).opened.get? tag = (o.opened.get? tag).map (OpenRegion.shift n) :=
  Table.getMapValues _ _ _

theorem carriedRecord (o : Outline) (tag : Text) (attributes : Table Text Text) (content : Span) :
    (carried b front n o).record b tag attributes (content.shift n) =
      carried b front n (o.record a tag attributes content) := by
  simp only [carried, Outline.record, List.map_append, List.append_assoc]
  rfl

theorem distinctShift (attributes : List Attribute) :
    Outline.distinct (attributes.map (Attribute.shift n)) = Outline.distinct attributes := by
  unfold Outline.distinct
  rw [List.foldl_map]
  rfl

theorem carriedEnter (o : Outline) (tag : StartTag) :
    (carried b front n o).enter b (tag.shift n) = carried b front n (o.enter a tag) := by
  unfold Outline.enter
  have held : (carried b front n o).opened.get? (tag.shift n).name =
      (o.opened.get? tag.name).map (OpenRegion.shift n) := carriedGet o tag.name
  cases here : o.opened.get? tag.name with
  | some r =>
    rw [here] at held
    simp only [held, Option.map_some]
    change (if tag.selfClosing = true then _ else _) = _
    split
    · rfl
    · exact congrArg (Outline.mk · _)
        (Table.putMapValues (OpenRegion.shift n) o.opened tag.name { r with depth := r.depth + 1 })
  | none =>
    rw [here] at held
    simp only [held, Option.map_none]
    change (if tag.selfClosing = true then _ else _) = _
    have attributes : Outline.distinct (tag.shift n).attributes = Outline.distinct tag.attributes :=
      distinctShift tag.attributes
    rw [attributes]
    split
    · exact carriedRecord o tag.name _ (Span.empty tag.span.stop)
    · exact congrArg (Outline.mk · _) (Table.putMapValues (OpenRegion.shift n) o.opened tag.name
        ⟨1, Outline.distinct tag.attributes, tag.span.stop, tag.span⟩)

theorem carriedLeave (o : Outline) (name : Text) (span : Span) :
    (carried b front n o).leave b name (span.shift n) = carried b front n (o.leave a name span) := by
  unfold Outline.leave
  rw [carriedGet]
  cases here : o.opened.get? name with
  | none => rfl
  | some r =>
    simp only [Option.map_some]
    change (if 1 < r.depth then _ else _) = _
    split
    · exact congrArg (Outline.mk · _)
        (Table.putMapValues (OpenRegion.shift n) o.opened name { r with depth := r.depth - 1 })
    · have erased : (carried b front n o).opened.erase name =
          (o.opened.erase name).mapValues (OpenRegion.shift n) := Table.eraseMapValues _ _ _
      rw [erased]
      exact carriedRecord (a := a) { o with opened := o.opened.erase name } name r.attributes
        ⟨r.contentStart, span.start⟩

theorem carriedStep (o : Outline) (e : Event) :
    (carried b front n o).step tags b (e.shift n) = carried b front n (o.step tags a e) := by
  cases e with
  | opened tag =>
    simp only [Outline.step, Event.shift]
    change (if tags.contains tag.name = true then _ else _) = _
    split
    · exact carriedEnter o tag
    · rfl
  | closed name span => exact carriedLeave o name span
  | text span => rfl
  | comment span => rfl

theorem carriedRun (o : Outline) (events : List Event) :
    (events.map (Event.shift n)).foldl (Outline.step tags b) (carried b front n o) =
      carried b front n (events.foldl (Outline.step tags a) o) := by
  induction events generalizing o with
  | nil => rfl
  | cons e rest ih =>
    rw [List.map_cons, List.foldl_cons, List.foldl_cons, carriedStep (a := a), ih]

end Carried

theorem runTags (tags : List Text) (source : Text) (events : List Event) :
    Outline.run tags source (Markup.withoutText events) = Outline.run tags source events := by
  have onward (o : Outline) : (Markup.withoutText events).foldl (Outline.step tags source) o =
      events.foldl (Outline.step tags source) o := by
    induction events generalizing o with
    | nil => rfl
    | cons e rest ih =>
      cases e with
      | text span => exact ih o
      | opened tag => exact ih _
      | closed name span => exact ih _
      | comment span => exact ih _
  exact onward Outline.empty

theorem sectionsOfUnread {source : Text} {tags requested : List Text} {e : Markup.ParseError}
    (valid : requestedTags tags = .ok requested) (failed : Markup.events source = .error e) :
    sectionsOf source tags = .error (.parse e) := by
  unfold sectionsOf
  rw [valid, failed]
  rfl

theorem eventsUnshifted (events : List Event) : events.map (Event.shift 0) = events := by
  have attributes : Attribute.shift 0 = id := by
    funext a
    simp [Attribute.shift, Span.shift]
  have same : Event.shift 0 = id := by
    funext e
    cases e <;> simp [Event.shift, StartTag.shift, Span.shift, attributes]
  rw [same, List.map_id]

theorem firstOpenShift (n : Nat) (t : Table Text OpenRegion) :
    Outline.firstOpen? (t.mapValues (OpenRegion.shift n)) =
      (Outline.firstOpen? t).map fun (tag, r) => (tag, r.shift n) := by
  induction t with
  | nil => rfl
  | cons entry rest ih =>
    obtain ⟨tag, r⟩ := entry
    unfold Table.mapValues at ih ⊢
    simp only [List.map_cons, Outline.firstOpen?, ih]
    cases Outline.firstOpen? rest with
    | none => rfl
    | some first =>
      simp only [Option.map_some, OpenRegion.shift, Span.shiftStart, Nat.add_lt_add_iff_left]
      split <;> rfl

theorem carriedResult (source : Text) (front : List Section) (n : Nat) (o : Outline) :
    (carried source front n o).result =
      match o.result with
      | .ok sections => .ok (front ++ sections.map (placed source n))
      | .error e => .error (e.shift n) := by
  unfold Outline.result
  simp only [carried, firstOpenShift]
  cases Outline.firstOpen? o.opened with
  | none => rfl
  | some first => rfl

section Behind
variable {a b : Text} {tags : List Text} {sections : List Section}

theorem placedSame {s : Section} (made : sectionsOf a tags = .ok sections) (member : s ∈ sections) :
    placed (a ++ b) 0 s = s := by
  obtain ⟨slice, recorded⟩ := sectionPlace made member
  obtain ⟨before, after, splits, place, last, line⟩ := sectionLine made member
  have content : s.contentSpan.shift 0 = s.contentSpan := by simp [Span.shift]
  have text : (s.contentSpan.slice? (a ++ b)).getD [] = s.text := by
    have longer : s.contentSpan.slice? (a ++ b) = some s.text := Text.sliceMore b slice
    rw [longer, Option.getD_some]
  have lineAt : (Lines.ofText (a ++ b)).lineAt (0 + s.contentSpan.start) =
      (Lines.ofText a).lineAt s.contentSpan.start := by
    rw [line, Nat.zero_add, ← place, splits, List.append_assoc]
    refine Lines.lineAtBreaks ?_
    rw [last]
    simp
  unfold placed
  rw [content, text, lineAt, ← recorded.offset]

theorem placedBehind {s : Section} (recorded : Recorded b s)
    (apart : ¬ (a.getLast? = some '\r' ∧ b.head? = some '\n')) :
    placed (a ++ b) a.size s = s.behind a := by
  have text : (s.contentSpan.shift a.size).slice? (a ++ b) = s.contentSpan.slice? b :=
    Text.sliceBehind a b _ _
  unfold placed Section.behind
  rw [text, ← recorded.text, Lines.lineAtBehind _ apart]
  have offset := recorded.offset
  split
  · rfl
  · rename_i inline
    rw [if_neg inline] at offset
    rw [offset, Nat.add_comm a.lineBreaks, Nat.add_right_comm]

theorem runBehind {requested : List Text} {found more whole : List Event}
    (valid : requestedTags tags = .ok requested) (read : Markup.events a = .ok found)
    (made : sectionsOf a tags = .ok sections)
    (same : Markup.withoutText whole = Markup.withoutText found ++
      (Markup.withoutText more).map (Event.shift a.size)) :
    Outline.run requested (a ++ b) whole =
      carried (a ++ b) sections a.size (Outline.run requested b more) := by
  obtain ⟨zero, listed⟩ := (sectionsOfOk valid read).mp made
  have closed : (Outline.run requested a found).opened = [] :=
    (openedEmpty (followsRun requested a found)).mpr zero
  have kept : sections.map (placed (a ++ b) 0) = sections := by
    rw [List.map_congr_left fun s member => placedSame made member, List.map_id']
  have first : (Markup.withoutText found).foldl (Outline.step requested (a ++ b)) Outline.empty =
      ⟨[], sections⟩ := by
    have moved : ((Markup.withoutText found).map (Event.shift 0)).foldl
        (Outline.step requested (a ++ b)) (carried (a ++ b) [] 0 Outline.empty) =
      carried (a ++ b) [] 0
        ((Markup.withoutText found).foldl (Outline.step requested a) Outline.empty) :=
      carriedRun _ _
    rw [eventsUnshifted] at moved
    refine moved.trans ?_
    change carried (a ++ b) [] 0 (Outline.run requested a (Markup.withoutText found)) = _
    rw [runTags]
    unfold carried
    rw [closed, listed, kept]
    rfl
  have second : ((Markup.withoutText more).map (Event.shift a.size)).foldl
      (Outline.step requested (a ++ b)) (carried (a ++ b) sections a.size Outline.empty) =
    carried (a ++ b) sections a.size
      ((Markup.withoutText more).foldl (Outline.step requested b) Outline.empty) :=
    carriedRun _ _
  rw [← runTags, same]
  unfold Outline.run
  rw [List.foldl_append, first]
  have onward : carried (a ++ b) sections a.size Outline.empty = ⟨[], sections⟩ := by
    simp [carried, Outline.empty, Table.mapValues]
  rw [← onward, second]
  change carried _ _ _ (Outline.run requested b (Markup.withoutText more)) = _
  rw [runTags]
  rfl

/- Extraction respects concatenation, unless the seam makes an angle open something or joins two
characters to one line break. -/
theorem sectionsConcatenate (made : sectionsOf a tags = .ok sections)
    (closed : a.getLast? ≠ some '<')
    (apart : ¬ (a.getLast? = some '\r' ∧ b.head? = some '\n')) :
    (∀ more, sectionsOf b tags = .ok more →
        sectionsOf (a ++ b) tags = .ok (sections ++ more.map (Section.behind a))) ∧
      ∀ e, sectionsOf b tags = .error (.parse e) →
        sectionsOf (a ++ b) tags = .error (.parse (e.shift a.size)) := by
  obtain ⟨requested, found, valid, read⟩ := sectionsOfSteps made
  obtain ⟨goes, fails⟩ := Markup.eventsBehind (b := b) read (.inl closed)
  cases second : Markup.events b with
  | error e =>
    rw [sectionsOfUnread valid second, sectionsOfUnread valid (fails e second)]
    exact ⟨by simp, by rintro _ ⟨⟩; rfl⟩
  | ok more =>
    obtain ⟨whole, both, same⟩ := goes more second
    have placedAll : ∀ s ∈ (Outline.run requested b more).sections,
        placed (a ++ b) a.size s = s.behind a :=
      fun s member => placedBehind (recordedRun b requested more s member) apart
    rw [sectionsOfRead valid second, sectionsOfRead valid both, runBehind valid read made same,
      carriedResult]
    cases outcome : (Outline.run requested b more).result with
    | error e => exact ⟨by simp [Except.mapError], by rintro _ ⟨⟩; rfl⟩
    | ok listed =>
      obtain ⟨_, rfl⟩ := (resultExact listed).mp outcome
      have moved := List.map_congr_left placedAll
      refine ⟨?_, by simp [Except.mapError]⟩
      rintro _ ⟨⟩
      rw [← moved]
      rfl

theorem twoDocuments :
    sectionsOf ("<u/>\r<t>é</t>a".toList ++ "\n<t src>b</t>\n<t>c</t>".toList) ["t", "U"] =
        .ok [⟨"u", [], [], 1, ⟨4, 4⟩⟩, ⟨"t", "é", [], 2, ⟨8, 10⟩⟩,
          ⟨"t", "b", [("src", [])], 0, ⟨23, 24⟩⟩, ⟨"t", "c", [], 4, ⟨32, 33⟩⟩] ∧
      sectionsOf ("<u/>\r<t>é</t>a".toList ++ "\n<t>".toList) ["t", "U"] =
        .error (.parse ⟨.unclosedTag "t", ⟨16, 19⟩⟩) := by
  have made : sectionsOf "<u/>\r<t>é</t>a" ["t", "U"] =
      .ok [⟨"u", [], [], 1, ⟨4, 4⟩⟩, ⟨"t", "é", [], 2, ⟨8, 10⟩⟩] := by decide +kernel
  have more : sectionsOf "\n<t src>b</t>\n<t>c</t>" ["t", "U"] =
      .ok [⟨"t", "b", [("src", [])], 0, ⟨8, 9⟩⟩, ⟨"t", "c", [], 3, ⟨17, 18⟩⟩] := by decide +kernel
  have failed : sectionsOf "\n<t>" ["t", "U"] =
      .error (.parse ⟨.unclosedTag "t", ⟨1, 4⟩⟩) := by decide +kernel
  obtain ⟨goes, _⟩ := sectionsConcatenate (b := "\n<t src>b</t>\n<t>c</t>") made (by decide)
    (by decide)
  obtain ⟨_, fails⟩ := sectionsConcatenate (b := "\n<t>") made (by decide) (by decide)
  exact ⟨goes _ more, fails _ failed⟩

end Behind

end Regions
end ComponentFile
