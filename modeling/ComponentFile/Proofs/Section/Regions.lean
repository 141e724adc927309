import ComponentFile.Proofs.Markup.Tiling
import ComponentFile.Proofs.Section.Following

/-! Extraction against the depths of tags. The sections are exactly the outermost regions: one for
every return of a depth to zero and one for every tag that closes itself at depth zero, in the order
of the events that complete them. -/
namespace ComponentFile.Regions
open Markup (Event)

section Apart
variable {requested : List Text} {events : List Event}

theorem completesBegin {i : Nat} {s : Section} (h : Completes requested events i s) :
    ∃ j e, j ≤ i ∧ events[j]? = some e ∧ s.contentSpan.start = e.span.stop ∧
      ∀ k, j < k → k ≤ i → 0 < depth s.tag (events.take k) := by
  cases h with
  | @region j start span asked since here back made =>
    refine ⟨j, _, Nat.le_of_lt since.earlier, since.here, by rw [made.content]; rfl, ?_⟩
    rw [made.tag]
    exact since.inside
  | @selfClosed start asked here closed outermost made =>
    exact ⟨i, _, Nat.le_refl i, here, by rw [made.content]; rfl, by intros; omega⟩

theorem completesStop {i : Nat} {s : Section} (h : Completes requested events i s) :
    ∃ e, events[i]? = some e ∧ (s.contentSpan.stop = e.span.start ∨ s.contentSpan.stop = e.span.stop) ∧
      depth s.tag (events.take (i + 1)) = 0 := by
  cases h with
  | @region j start span asked since here back made =>
    refine ⟨_, here, .inl (by rw [made.content]; rfl), ?_⟩
    rw [made.tag]
    exact back
  | @selfClosed start asked here closed outermost made =>
    refine ⟨_, here, .inr (by rw [made.content]; rfl), ?_⟩
    rw [made.tag, depthOpenedOther here (.inr closed)]
    exact outermost

theorem spansInOrder {document rest : Text} (cuts : Markup.Cuts 0 document events rest) {i j : Nat}
    {a b : Event} (first : events[i]? = some a) (second : events[j]? = some b) (before : i < j) :
    a.span.stop ≤ b.span.start := by
  obtain ⟨_, rfl⟩ := List.getElem?_eq_some_iff.mp first
  obtain ⟨_, rfl⟩ := List.getElem?_eq_some_iff.mp second
  exact List.pairwise_iff_getElem.mp (Markup.cutsOrdered cuts) i j _ _ before

theorem spanAscends {document rest : Text} (cuts : Markup.Cuts 0 document events rest) {i : Nat}
    {e : Event} (here : events[i]? = some e) : e.span.start < e.span.stop :=
  (Markup.cutsWithin cuts (List.mem_of_getElem? here)).2

theorem completesAscends {document rest : Text} (cuts : Markup.Cuts 0 document events rest)
    {i : Nat} {s : Section} (h : Completes requested events i s) :
    s.contentSpan.start ≤ s.contentSpan.stop := by
  cases h with
  | @region j start span asked since here back made =>
    rw [made.content]
    exact spansInOrder cuts since.here here since.earlier
  | @selfClosed start asked here closed outermost made =>
    have empty : s.contentSpan = Span.empty start.span.stop := made.content
    simp [empty, Span.empty]

theorem completesApart {document rest : Text} (cuts : Markup.Cuts 0 document events rest)
    {i j : Nat} {s t : Section} (before : i < j) (left : Completes requested events i s)
    (right : Completes requested events j t) (same : s.tag = t.tag) :
    s.contentSpan.stop ≤ t.contentSpan.start := by
  obtain ⟨a, atLeft, stop, zero⟩ := completesStop left
  obtain ⟨k, b, upTo, atRight, start, positive⟩ := completesBegin right
  have later : i < k := by
    by_cases order : i < k
    · exact order
    · have := positive (i + 1) (by omega) (by omega)
      rw [← same, zero] at this
      omega
  have apart := spansInOrder cuts atLeft atRight later
  have ascends := spanAscends cuts atLeft
  have ascends' := spanAscends cuts atRight
  omega

theorem sectionsApart {document rest : Text} (cuts : Markup.Cuts 0 document events rest)
    {ends : List Nat} {sections : List Section} (ascending : ends.Pairwise (· < ·))
    (made : List.Forall₂ (Completes requested events) ends sections) :
    sections.Pairwise fun a b => a.tag = b.tag → a.contentSpan.stop ≤ b.contentSpan.start := by
  refine pairwiseRelated (fun i j s t first second before same => ?_) made ascending
  exact completesApart cuts before first second same

end Apart

/- Extraction succeeds exactly when every requested depth ends at zero. The sections then belong one
to one to the events that complete a region, in their order, and those of one tag do not overlap. -/
theorem outermostRegions {source : Text} {tags requested : List Text} {events : List Event}
    (valid : requestedTags tags = .ok requested) (read : Markup.events source = .ok events) :
    ((∃ sections, sectionsOf source tags = .ok sections) ↔
        ∀ tag ∈ requested, depth tag events = 0) ∧
      ∀ sections, sectionsOf source tags = .ok sections →
        (∃ ends : List Nat, ends.Pairwise (· < ·) ∧
          (∀ i, i ∈ ends ↔ EndsSection requested events i) ∧
          List.Forall₂ (Completes requested events) ends sections) ∧
        (∀ s ∈ sections, s.contentSpan.start ≤ s.contentSpan.stop) ∧
        sections.Pairwise fun a b => a.tag = b.tag → a.contentSpan.stop ≤ b.contentSpan.start := by
  constructor
  · constructor
    · rintro ⟨sections, made⟩
      exact ((sectionsOfOk valid read).mp made).1
    · intro zero
      exact ⟨_, (sectionsOfOk valid read).mpr ⟨zero, rfl⟩⟩
  · intro sections made
    obtain ⟨_, rfl⟩ := (sectionsOfOk valid read).mp made
    obtain ⟨ends, ascending, listed, all⟩ := (followsRun requested source events).done
    obtain ⟨rest, cuts⟩ := Markup.eventsCuts read
    refine ⟨⟨ends, ascending, ?_, all⟩, ?_, sectionsApart cuts ascending all⟩
    · intro i
      rw [listed]
      exact ⟨fun h => h.2, fun h => ⟨endsWithin h, h⟩⟩
    · intro s member
      obtain ⟨i, _, completes⟩ := relatedRight all member
      exact completesAscends cuts completes

theorem nestedRegions :
    requestedTags ["T"] = .ok ["t"] ∧
      ∃ events, Markup.events "<t a a=1><T/><t></t></t></t><t/>" = .ok events ∧
        ∃ sections, sectionsOf "<t a a=1><T/><t></t></t></t><t/>" ["T"] = .ok sections ∧
          ∃ ends : List Nat, ends.Pairwise (· < ·) ∧
            List.Forall₂ (Completes ["t"] events) ends sections := by
  have valid : requestedTags ["T"] = .ok ["t"] := by decide +kernel
  have read : Markup.events "<t a a=1><T/><t></t></t></t><t/>" = .ok
      [.opened ⟨"t", [⟨"a", [], ⟨3, 4⟩⟩, ⟨"a", "1", ⟨5, 8⟩⟩], ⟨0, 9⟩, false⟩,
        .opened ⟨"t", [], ⟨9, 13⟩, true⟩, .opened ⟨"t", [], ⟨13, 16⟩, false⟩,
        .closed "t" ⟨16, 20⟩, .closed "t" ⟨20, 24⟩, .closed "t" ⟨24, 28⟩,
        .opened ⟨"t", [], ⟨28, 32⟩, true⟩] := by decide +kernel
  obtain ⟨success, each⟩ := outermostRegions valid read
  obtain ⟨sections, made⟩ := success.mpr (by decide)
  obtain ⟨⟨ends, ascending, _, all⟩, _⟩ := each sections made
  exact ⟨valid, _, read, sections, made, ends, ascending, all⟩

end ComponentFile.Regions
