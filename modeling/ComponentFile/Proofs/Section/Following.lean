import ComponentFile.Section.Outline
import ComponentFile.Proofs.Related
import ComponentFile.Proofs.Section.Depth
import ComponentFile.Proofs.Table

/-! The invariant of extraction: after any number of events the outline holds exactly the tags
whose depth is positive, each with the tag that opened its region, and has made the sections of the
regions that are complete. -/
namespace ComponentFile.Regions
open Markup (Event StartTag Attribute)

theorem distinctFrom (t : Table Text Text) (attributes : List Attribute) :
    attributes.foldl (fun t a => t.putNew a.name a.value) t =
      t ++ (firstOfEach attributes).filter fun entry => !t.contains entry.1 := by
  induction attributes generalizing t with
  | nil => simp [firstOfEach]
  | cons a rest ih =>
    rw [List.foldl_cons, ih, firstOfEach, List.filter_cons, List.filter_filter]
    unfold Table.putNew
    split
    · rename_i known
      simp only [known, Bool.not_true, Bool.false_eq_true, if_false]
      congr 1
      apply List.filter_congr
      intro entry _
      by_cases same : entry.1 = a.name
      · simp [same, known]
      · simp [same]
    · rename_i unknown
      simp only [unknown, Bool.not_false, if_true, List.append_assoc, List.singleton_append]
      congr 2
      apply List.filter_congr
      intro entry _
      simp [Table.contains, bne, Bool.beq_comm, Bool.and_comm]

theorem distinctExact (attributes : List Attribute) :
    Outline.distinct attributes = firstOfEach attributes := by
  unfold Outline.distinct
  rw [distinctFrom, List.nil_append, List.filter_eq_self]
  intro entry _
  rfl

inductive Tracks (requested : List Text) (events : List Event) (n : Nat) (tag : Text) :
    Option OpenRegion → Prop where
  | closed (outside : tag ∈ requested → depth tag (events.take n) = 0) :
      Tracks requested events n tag none
  | opened {r : OpenRegion} {j : Nat} {start : StartTag} (named : start.name = tag)
      (asked : tag ∈ requested) (level : r.depth = depth tag (events.take n))
      (since : OpenSince events n j start) (attributes : r.attributes = firstOfEach start.attributes)
      (content : r.contentStart = start.span.stop) : Tracks requested events n tag (some r)

def Done (requested : List Text) (events : List Event) (n : Nat) (sections : List Section) : Prop :=
  ∃ ends : List Nat, ends.Pairwise (· < ·) ∧
    (∀ i, i ∈ ends ↔ i < n ∧ EndsSection requested events i) ∧
    List.Forall₂ (Completes requested events) ends sections

structure Follows (requested : List Text) (events : List Event) (n : Nat) (o : Outline) : Prop where
  tracks : ∀ tag, Tracks requested events n tag (o.opened.get? tag)
  done : Done requested events n o.sections

section Step
variable {requested : List Text} {events : List Event} {n : Nat}

theorem tracksIdle {tag : Text} {r : Option OpenRegion}
    (idle : depth tag (events.take (n + 1)) = depth tag (events.take n))
    (h : Tracks requested events n tag r) : Tracks requested events (n + 1) tag r := by
  cases h with
  | closed outside => exact .closed (by rwa [idle])
  | opened named asked level since attributes content =>
    subst named
    exact .opened rfl asked (level.trans idle.symm)
      (sinceStep since (by rw [idle]; exact sincePositive since)) attributes content

theorem doneIdle {sections : List Section} (none : ¬ EndsSection requested events n)
    (h : Done requested events n sections) : Done requested events (n + 1) sections := by
  obtain ⟨ends, ascending, listed, made⟩ := h
  refine ⟨ends, ascending, ?_, made⟩
  intro i
  rw [listed]
  constructor
  · rintro ⟨less, ended⟩
    exact ⟨by omega, ended⟩
  · rintro ⟨less, ended⟩
    have : i ≠ n := by rintro rfl; exact none ended
    exact ⟨by omega, ended⟩

theorem doneOne {sections : List Section} {s : Section} (one : EndsSection requested events n)
    (made : Completes requested events n s) (h : Done requested events n sections) :
    Done requested events (n + 1) (sections ++ [s]) := by
  obtain ⟨ends, ascending, listed, before⟩ := h
  refine ⟨ends ++ [n], ?_, ?_, List.rel_append before (.cons made .nil)⟩
  · rw [List.pairwise_append]
    refine ⟨ascending, List.pairwise_singleton _ _, ?_⟩
    intro i member k last
    rw [List.mem_singleton] at last
    subst last
    exact ((listed i).mp member).1
  · intro i
    rw [List.mem_append, List.mem_singleton, listed]
    constructor
    · rintro (⟨less, ended⟩ | rfl)
      · exact ⟨by omega, ended⟩
      · exact ⟨by omega, one⟩
    · rintro ⟨less, ended⟩
      by_cases last : i = n
      · exact .inr last
      · exact .inl ⟨by omega, ended⟩

section Table
variable {opened : Table Text OpenRegion} {name : Text} {r : OpenRegion}

theorem tracksPut (own : Tracks requested events n name (some r))
    (others : ∀ tag, name ≠ tag → Tracks requested events n tag (opened.get? tag)) (tag : Text) :
    Tracks requested events n tag ((opened.put name r).get? tag) := by
  by_cases same : name = tag
  · subst same
    rwa [Table.getPutSame]
  · rw [Table.getPutOther _ _ same]
    exact others tag same

theorem tracksErase (own : Tracks requested events n name none)
    (others : ∀ tag, name ≠ tag → Tracks requested events n tag (opened.get? tag)) (tag : Text) :
    Tracks requested events n tag ((opened.erase name).get? tag) := by
  by_cases same : name = tag
  · subst same
    rwa [Table.getEraseSame]
  · rw [Table.getEraseOther _ same]
    exact others tag same

theorem tracksClosed (h : Tracks requested events n name none) (asked : name ∈ requested) :
    depth name (events.take n) = 0 := by
  obtain ⟨outside⟩ := h
  exact outside asked

theorem tracksOpened (h : Tracks requested events n name (some r)) :
    name ∈ requested ∧ r.depth = depth name (events.take n) ∧ 0 < r.depth := by
  cases h with
  | opened named asked level since _ _ =>
    subst named
    exact ⟨asked, level, level ▸ sincePositive since⟩

theorem tracksDepth {d : Nat} (h : Tracks requested events n name (some r))
    (level : d = depth name (events.take (n + 1))) (positive : 0 < d) :
    Tracks requested events (n + 1) name (some { r with depth := d }) := by
  cases h with
  | opened named asked _ since attributes content =>
    subst named
    exact .opened rfl asked level (sinceStep since (level ▸ positive)) attributes content

theorem tracksBegun {start : StartTag} (here : events[n]? = some (.opened start))
    (lasting : start.selfClosing = false) (asked : start.name ∈ requested)
    (zero : depth start.name (events.take n) = 0) :
    Tracks requested events (n + 1) start.name
      (some ⟨1, Outline.distinct start.attributes, start.span.stop, start.span⟩) := by
  have one : depth start.name (events.take (n + 1)) = 1 := by rw [depthOpened here lasting, zero]
  refine .opened rfl asked one.symm ⟨Nat.lt_succ_self n, here, lasting, zero, ?_⟩
    (distinctExact _) rfl
  intro k after upTo
  have same : k = n + 1 := by omega
  rw [same, one]
  exact Nat.one_pos

theorem completesRegion {s : Section} {span : Span} (h : Tracks requested events n name (some r))
    (here : events[n]? = some (.closed name span)) (back : depth name (events.take (n + 1)) = 0)
    (tag : s.tag = name) (attributes : s.attributes = r.attributes)
    (content : s.contentSpan = ⟨r.contentStart, span.start⟩) : Completes requested events n s := by
  cases h with
  | opened named asked _ since opens begins =>
    subst named
    exact .region asked since here back ⟨tag, attributes.trans opens, by rw [content, begins]⟩

end Table

section Tags
variable {o : Outline} {source name : Text} {span : Span} {start : StartTag} {r : OpenRegion}

theorem strayEnd (here : events[n]? = some (.closed name span)) (h : Follows requested events n o)
    (stray : o.opened.get? name = none) : Follows requested events (n + 1) o := by
  have own := h.tracks name
  rw [stray] at own
  refine ⟨fun tag => ?_, doneIdle (fun ended => ?_) h.done⟩
  · by_cases same : name = tag
    · subst same
      rw [stray]
      exact .closed fun asked => by rw [depthClosed here, tracksClosed own asked]
    · exact tracksIdle (depthClosedOther here same) (h.tracks tag)
  · obtain ⟨asked, one⟩ := endsByClosing here ended
    rw [tracksClosed own asked] at one
    contradiction

theorem innerEnd (here : events[n]? = some (.closed name span)) (h : Follows requested events n o)
    (held : o.opened.get? name = some r) (inner : 1 < r.depth) : Follows requested events (n + 1)
      { o with opened := o.opened.put name { r with depth := r.depth - 1 } } := by
  have own := h.tracks name
  rw [held] at own
  have level := (tracksOpened own).2.1
  have less : r.depth - 1 = depth name (events.take (n + 1)) := by rw [depthClosed here, level]
  refine ⟨tracksPut (tracksDepth own less (by omega)) fun tag other =>
    tracksIdle (depthClosedOther here other) (h.tracks tag), doneIdle (fun ended => ?_) h.done⟩
  have := (endsByClosing here ended).2
  omega

theorem outerEnd (here : events[n]? = some (.closed name span)) (h : Follows requested events n o)
    (held : o.opened.get? name = some r) (outer : ¬ 1 < r.depth) : Follows requested events (n + 1)
      ({ o with opened := o.opened.erase name }.record source name r.attributes
        ⟨r.contentStart, span.start⟩) := by
  have own := h.tracks name
  rw [held] at own
  obtain ⟨asked, level, positive⟩ := tracksOpened own
  have one : depth name (events.take n) = 1 := by omega
  have back : depth name (events.take (n + 1)) = 0 := by rw [depthClosed here, one]
  exact ⟨tracksErase (.closed fun _ => back) fun tag other =>
      tracksIdle (depthClosedOther here other) (h.tracks tag),
    doneOne (.inl ⟨name, asked, one, back⟩) (completesRegion own here back rfl rfl rfl) h.done⟩

theorem leaveStep (here : events[n]? = some (.closed name span)) (h : Follows requested events n o) :
    Follows requested events (n + 1) (o.leave source name span) := by
  unfold Outline.leave
  cases held : o.opened.get? name with
  | none => exact strayEnd here h held
  | some r =>
    simp only
    split
    · rename_i inner
      exact innerEnd here h held inner
    · rename_i outer
      exact outerEnd here h held outer

theorem openedOther (here : events[n]? = some (.opened start)) (h : Follows requested events n o)
    (tag : Text) (other : start.name ≠ tag ∨ start.selfClosing = true) :
    Tracks requested events (n + 1) tag (o.opened.get? tag) :=
  tracksIdle (depthOpenedOther here other) (h.tracks tag)

theorem emptyElement (here : events[n]? = some (.opened start)) (asked : start.name ∈ requested)
    (h : Follows requested events n o) (free : o.opened.get? start.name = none)
    (closed : start.selfClosing = true) : Follows requested events (n + 1)
      (o.record source start.name (Outline.distinct start.attributes) (Span.empty start.span.stop)) := by
  have own := h.tracks start.name
  rw [free] at own
  have zero := tracksClosed own asked
  refine ⟨fun tag => openedOther here h tag (.inr closed), doneOne ?_ ?_ h.done⟩
  · exact .inr ⟨start, here, closed, asked, zero⟩
  · exact .selfClosed asked here closed zero ⟨rfl, distinctExact _, rfl⟩

theorem outerTag (here : events[n]? = some (.opened start)) (asked : start.name ∈ requested)
    (h : Follows requested events n o) (free : o.opened.get? start.name = none)
    (lasting : start.selfClosing = false) : Follows requested events (n + 1)
      { o with
        opened := o.opened.put start.name
          ⟨1, Outline.distinct start.attributes, start.span.stop, start.span⟩ } := by
  have own := h.tracks start.name
  rw [free] at own
  have zero := tracksClosed own asked
  refine ⟨tracksPut (tracksBegun here lasting asked zero) fun tag other =>
    openedOther here h tag (.inl other), doneIdle (fun ended => ?_) h.done⟩
  rw [(endsByOpening here ended).2.1] at lasting
  contradiction

theorem insideQuiet (here : events[n]? = some (.opened start)) (h : Follows requested events n o)
    (held : o.opened.get? start.name = some r) : ¬ EndsSection requested events n := by
  intro ended
  have own := h.tracks start.name
  rw [held] at own
  obtain ⟨_, level, positive⟩ := tracksOpened own
  have := (endsByOpening here ended).2.2
  omega

theorem innerTag (here : events[n]? = some (.opened start)) (h : Follows requested events n o)
    (held : o.opened.get? start.name = some r) (lasting : start.selfClosing = false) :
    Follows requested events (n + 1)
      { o with opened := o.opened.put start.name { r with depth := r.depth + 1 } } := by
  have own := h.tracks start.name
  rw [held] at own
  have level := (tracksOpened own).2.1
  have deeper : r.depth + 1 = depth start.name (events.take (n + 1)) := by
    rw [depthOpened here lasting, level]
  exact ⟨tracksPut (tracksDepth own deeper (Nat.succ_pos _)) fun tag other =>
    openedOther here h tag (.inl other), doneIdle (insideQuiet here h held) h.done⟩

theorem enterStep (here : events[n]? = some (.opened start)) (asked : start.name ∈ requested)
    (h : Follows requested events n o) :
    Follows requested events (n + 1) (o.enter source start) := by
  unfold Outline.enter
  cases held : o.opened.get? start.name with
  | none =>
    simp only
    split
    · rename_i closed
      exact emptyElement here asked h held closed
    · rename_i lasting
      exact outerTag here asked h held (by simpa using lasting)
  | some r =>
    simp only
    split
    · rename_i closed
      exact ⟨fun tag => openedOther here h tag (.inr closed),
        doneIdle (insideQuiet here h held) h.done⟩
    · rename_i lasting
      exact innerTag here h held (by simpa using lasting)

end Tags

theorem idleStep {o : Outline} {e : Event} (here : events[n]? = some e)
    (h : Follows requested events n o)
    (idle : ∀ tag ∈ requested, depth tag (events.take (n + 1)) = depth tag (events.take n))
    (foreign : ∀ start, e = .opened start → start.name ∉ requested) :
    Follows requested events (n + 1) o := by
  refine ⟨fun tag => ?_, doneIdle ?_ h.done⟩
  · have own := h.tracks tag
    by_cases asked : tag ∈ requested
    · exact tracksIdle (idle tag asked) own
    · generalize o.opened.get? tag = r at own ⊢
      cases own with
      | closed outside => exact .closed fun isAsked => absurd isAsked asked
      | opened _ isAsked => exact absurd isAsked asked
  · rintro (⟨tag, asked, one, zero⟩ | ⟨start, opened, _, asked, _⟩)
    · rw [idle tag asked] at zero
      omega
    · rw [here] at opened
      cases opened
      exact foreign start rfl asked

theorem followsStep {o : Outline} {source : Text} {e : Event} (here : events[n]? = some e)
    (h : Follows requested events n o) :
    Follows requested events (n + 1) (o.step requested source e) := by
  cases e with
  | opened start =>
    simp only [Outline.step]
    split
    · rename_i asked
      exact enterStep here (by simpa using asked) h
    · rename_i other
      have other : start.name ∉ requested := by simpa using other
      refine idleStep here h (fun tag asked => depthOpenedOther here (.inl ?_))
        (by rintro _ ⟨⟩; exact other)
      rintro rfl
      exact other asked
  | closed name span => exact leaveStep here h
  | text span => exact idleStep here h (fun tag _ => by rw [depthStep tag here]; rfl) (by simp)
  | comment span => exact idleStep here h (fun tag _ => by rw [depthStep tag here]; rfl) (by simp)

end Step

theorem followsStart (requested : List Text) (events : List Event) :
    Follows requested events 0 Outline.empty := by
  refine ⟨fun tag => .closed fun _ => by simp [depth], [], .nil, ?_, .nil⟩
  intro i
  simp

theorem runOnward {events : List Event} {n : Nat} {e : Event} (requested : List Text) (source : Text)
    (here : events[n]? = some e) :
    Outline.run requested source (events.take (n + 1)) =
      (Outline.run requested source (events.take n)).step requested source e := by
  unfold Outline.run
  rw [List.take_add_one, here, Option.toList_some, List.foldl_append]
  rfl

theorem followsTake (requested : List Text) (source : Text) {events : List Event} {n : Nat}
    (fits : n ≤ events.length) :
    Follows requested events n (Outline.run requested source (events.take n)) := by
  induction n with
  | zero => exact followsStart requested events
  | succ n ih =>
    have here : events[n]? = some events[n] := List.getElem?_eq_getElem (by omega)
    rw [runOnward requested source here]
    exact followsStep here (ih (by omega))

theorem followsRun (requested : List Text) (source : Text) (events : List Event) :
    Follows requested events events.length (Outline.run requested source events) := by
  have whole := followsTake requested source (Nat.le_refl events.length)
  rwa [List.take_length] at whole

theorem firstOpenNone {t : Table Text OpenRegion} : Outline.firstOpen? t = none ↔ t = [] := by
  cases t with
  | nil => simp [Outline.firstOpen?]
  | cons entry rest =>
    simp only [Outline.firstOpen?]
    split
    · split <;> simp
    · simp

theorem openedEmpty {requested : List Text} {events : List Event} {o : Outline}
    (h : Follows requested events events.length o) :
    o.opened = [] ↔ ∀ tag ∈ requested, depth tag events = 0 := by
  constructor
  · intro empty tag asked
    have own := h.tracks tag
    rw [empty, Table.getNil] at own
    obtain ⟨outside⟩ := own
    simpa using outside asked
  · intro zero
    apply Table.emptyOfGet
    intro tag
    have own := h.tracks tag
    generalize o.opened.get? tag = r at own ⊢
    cases own with
    | closed _ => rfl
    | opened named asked level since _ _ =>
      have positive := sincePositive since
      rw [named, List.take_length, zero tag asked] at positive
      omega

theorem resultExact {requested : List Text} {source : Text} {events : List Event}
    (sections : List Section) :
    (Outline.run requested source events).result = .ok sections ↔
      (∀ tag ∈ requested, depth tag events = 0) ∧
        (Outline.run requested source events).sections = sections := by
  rw [← openedEmpty (followsRun requested source events), ← firstOpenNone]
  unfold Outline.result
  split
  · rename_i found
    simp [found]
  · rename_i none
    simp [none]

theorem sectionsOfRead {source : Text} {tags requested : List Text} {events : List Event}
    (valid : requestedTags tags = .ok requested) (read : Markup.events source = .ok events) :
    sectionsOf source tags = ((Outline.run requested source events).result).mapError .parse := by
  unfold sectionsOf
  rw [valid, read]
  rfl

theorem sectionsOfOk {source : Text} {tags requested : List Text} {events : List Event}
    {sections : List Section} (valid : requestedTags tags = .ok requested)
    (read : Markup.events source = .ok events) :
    sectionsOf source tags = .ok sections ↔
      (∀ tag ∈ requested, depth tag events = 0) ∧
        (Outline.run requested source events).sections = sections := by
  rw [sectionsOfRead valid read, ← resultExact]
  cases (Outline.run requested source events).result with
  | error e => simp [Except.mapError]
  | ok found => simp [Except.mapError]

end ComponentFile.Regions
