import ComponentFile.Proofs.Section.Regions
import ComponentFile.Proofs.Text.LineBreaks

/-! What a section holds besides its region: its text is what stands in the document between the
two ends of the region, and its offset is the line on which that begins. -/
namespace ComponentFile.Regions
open Markup (Event StartTag)

structure Recorded (source : Text) (s : Section) : Prop where
  text : s.text = (s.contentSpan.slice? source).getD []
  offset : s.offset =
    if s.isExternal then 0 else (Lines.ofText source).lineAt s.contentSpan.start + 1

theorem recordedOne {source : Text} {o : Outline} {tag : Text} {attributes : Table Text Text}
    {content : Span} (before : ∀ s ∈ o.sections, Recorded source s) :
    ∀ s ∈ (o.record source tag attributes content).sections, Recorded source s := by
  intro s member
  rcases List.mem_append.mp member with old | new
  · exact before s old
  · cases List.mem_singleton.mp new
    exact ⟨rfl, rfl⟩

theorem recordedStep {source : Text} {tags : List Text} {o : Outline} (e : Event)
    (before : ∀ s ∈ o.sections, Recorded source s) :
    ∀ s ∈ (o.step tags source e).sections, Recorded source s := by
  cases e with
  | opened start =>
    simp only [Outline.step]
    split
    · unfold Outline.enter
      split
      · split
        · exact before
        · exact before
      · simp only
        split
        · exact recordedOne before
        · exact before
    · exact before
  | closed name span =>
    simp only [Outline.step, Outline.leave]
    split
    · exact before
    · split
      · exact before
      · exact recordedOne before
  | text span => exact before
  | comment span => exact before

theorem recordedRun (source : Text) (tags : List Text) (events : List Event) :
    ∀ s ∈ (Outline.run tags source events).sections, Recorded source s := by
  have onward (o : Outline) (before : ∀ s ∈ o.sections, Recorded source s) :
      ∀ s ∈ (events.foldl (Outline.step tags source) o).sections, Recorded source s := by
    induction events generalizing o with
    | nil => exact before
    | cons e rest ih => exact ih _ (recordedStep e before)
  exact onward Outline.empty (by simp [Outline.empty])

theorem completesBoundaries {requested : List Text} {events : List Event} {document rest : Text}
    (cuts : Markup.Cuts 0 document events rest) {i : Nat} {s : Section}
    (h : Completes requested events i s) :
    document.Boundary s.contentSpan.start ∧ document.Boundary s.contentSpan.stop := by
  obtain ⟨j, e, _, here, start, _⟩ := completesBegin h
  obtain ⟨f, there, stop, _⟩ := completesStop h
  have left := Markup.cutsBoundaries cuts (List.mem_of_getElem? here)
  have right := Markup.cutsBoundaries cuts (List.mem_of_getElem? there)
  rw [start]
  refine ⟨left.2, ?_⟩
  rcases stop with stop | stop
  · rw [stop]; exact right.1
  · rw [stop]; exact right.2

theorem sectionsOfSteps {source : Text} {tags : List Text} {sections : List Section}
    (h : sectionsOf source tags = .ok sections) :
    ∃ requested events, requestedTags tags = .ok requested ∧ Markup.events source = .ok events := by
  unfold sectionsOf at h
  cases valid : requestedTags tags with
  | error e => rw [valid] at h; contradiction
  | ok requested =>
    cases read : Markup.events source with
    | error e => rw [valid, read] at h; contradiction
    | ok events => exact ⟨requested, events, rfl, rfl⟩

theorem sectionCompleted {source : Text} {tags : List Text} {sections : List Section} {s : Section}
    (made : sectionsOf source tags = .ok sections) (member : s ∈ sections) :
    ∃ requested events rest i, Markup.Cuts 0 source events rest ∧
      Completes requested events i s ∧ Recorded source s := by
  obtain ⟨requested, events, valid, read⟩ := sectionsOfSteps made
  obtain ⟨_, rfl⟩ := (sectionsOfOk valid read).mp made
  obtain ⟨ends, _, _, all⟩ := (followsRun requested source events).done
  obtain ⟨rest, cuts⟩ := Markup.eventsCuts read
  obtain ⟨i, _, completes⟩ := relatedRight all member
  exact ⟨requested, events, rest, i, cuts, completes, recordedRun source requested events s member⟩

theorem sectionPlace {source : Text} {tags : List Text} {sections : List Section} {s : Section}
    (made : sectionsOf source tags = .ok sections) (member : s ∈ sections) :
    s.contentSpan.slice? source = some s.text ∧ Recorded source s := by
  obtain ⟨requested, events, rest, i, cuts, completes, recorded⟩ := sectionCompleted made member
  obtain ⟨left, right⟩ := completesBoundaries cuts completes
  obtain ⟨middle, slice⟩ := Text.sliceBetween left right (completesAscends cuts completes)
  refine ⟨?_, recorded⟩
  rw [recorded.text]
  unfold Span.slice?
  rw [slice]
  rfl

theorem completesBehindTag {requested : List Text} {events : List Event} {i : Nat} {s : Section}
    (h : Completes requested events i s) :
    ∃ start : StartTag, .opened start ∈ events ∧ s.contentSpan.start = start.span.stop := by
  cases h with
  | @region j start span asked since here back made =>
    exact ⟨start, List.mem_of_getElem? since.here, by rw [made.content]⟩
  | @selfClosed start asked here closed outermost made =>
    exact ⟨start, List.mem_of_getElem? here, by rw [made.content]⟩

theorem sectionBehindTag {source : Text} {tags : List Text} {sections : List Section} {s : Section}
    (made : sectionsOf source tags = .ok sections) (member : s ∈ sections) :
    ∃ before inside after, source = (before ++ ('<' :: inside ++ ['>'])) ++ after ∧
      s.contentSpan.start = (before ++ ('<' :: inside ++ ['>'])).size := by
  obtain ⟨requested, events, rest, i, cuts, completes, _⟩ := sectionCompleted made member
  obtain ⟨start, delivered, behind⟩ := completesBehindTag completes
  obtain ⟨before, taken, after, same, _, place, angles⟩ := Markup.cutsPlace cuts delivered
  obtain ⟨inside, rfl⟩ := angles start rfl
  refine ⟨before, inside, after, same, ?_⟩
  have stop : start.span.stop = 0 + before.size + Text.size ('<' :: inside ++ ['>']) :=
    congrArg Span.stop place
  rw [behind, stop, Text.sizeAppend before, Nat.zero_add]

theorem sectionLineBelow {source : Text} {tags : List Text} {sections : List Section} {s : Section}
    (made : sectionsOf source tags = .ok sections) (member : s ∈ sections) :
    (Lines.ofText source).lineAt s.contentSpan.start < source.size := by
  obtain ⟨before, inside, after, same, position⟩ := sectionBehindTag made member
  have one : '<'.utf8Size = 1 := by decide
  have noBreak (pos : Nat) : Lines.breakEnds pos after ('<' :: inside ++ ['>']) =
      Lines.breakEnds (pos + 1) after (inside ++ ['>']) := by
    rw [List.cons_append, Lines.breakEnds, if_neg (by simp), one]
  have upTo := Lines.breakEndsLength 0 (('<' :: inside ++ ['>']) ++ after) before
  have within := Lines.breakEndsLength (0 + before.size + 1) after (inside ++ ['>'])
  rw [position, same, Lines.lineAtCut, Lines.breakEndsAppend, noBreak, List.length_append]
  simp only [List.cons_append, Text.sizeAppend, Text.sizeCons, one] at within upTo ⊢
  omega

end ComponentFile.Regions
