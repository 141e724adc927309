import ComponentFile.Proofs.Section.Concatenation
import ComponentFile.Proofs.Section.TagNames

/-! Extraction for several tags against extraction for each tag alone. What an outline holds for one
tag is followed by the events of that tag only, so the tags do not see each other; where several
stay open, the one that was opened first decides which error is reported. -/
namespace ComponentFile
open Markup (Event StartTag)

namespace Outline

def only (o : Outline) (tag : Text) : Outline :=
  ⟨o.opened.only tag, o.sections.filter fun s => s.tag = tag⟩

section Only
variable {source : Text} {o : Outline} {tag : Text}

theorem onlyRecordSame (attributes : Table Text Text) (content : Span) :
    (o.record source tag attributes content).only tag =
      (o.only tag).record source tag attributes content := by
  simp [only, record]

theorem onlyRecordOther {name : Text} (attributes : Table Text Text) (content : Span)
    (different : name ≠ tag) : (o.record source name attributes content).only tag = o.only tag := by
  simp [only, record, different]

theorem onlyEnterSame (start : StartTag) :
    (o.enter source start).only start.name = (o.only start.name).enter source start := by
  have held : (o.only start.name).opened.get? start.name = o.opened.get? start.name :=
    Table.getOnlySame _ _
  unfold enter
  rw [held]
  cases o.opened.get? start.name with
  | some r =>
    simp only
    split
    · rfl
    · exact congrArg (Outline.mk · _) (Table.putOnlySame _ _ _)
  | none =>
    simp only
    split
    · exact onlyRecordSame _ _
    · exact congrArg (Outline.mk · _) (Table.putOnlySame _ _ _)

theorem onlyEnterOther {start : StartTag} (different : start.name ≠ tag) :
    (o.enter source start).only tag = o.only tag := by
  unfold enter
  cases o.opened.get? start.name with
  | some r =>
    simp only
    split
    · rfl
    · exact congrArg (Outline.mk · _) (Table.putOnlyOther _ _ different)
  | none =>
    simp only
    split
    · exact onlyRecordOther _ _ different
    · exact congrArg (Outline.mk · _) (Table.putOnlyOther _ _ different)

theorem onlyLeaveSame (span : Span) :
    (o.leave source tag span).only tag = (o.only tag).leave source tag span := by
  have held : (o.only tag).opened.get? tag = o.opened.get? tag := Table.getOnlySame _ _
  unfold leave
  rw [held]
  cases o.opened.get? tag with
  | none => rfl
  | some r =>
    simp only
    split
    · exact congrArg (Outline.mk · _) (Table.putOnlySame _ _ _)
    · rw [onlyRecordSame]
      exact congrArg (fun opened => Outline.record source ⟨opened, _⟩ tag r.attributes _)
        (Table.eraseOnlySame _ _)

theorem onlyLeaveOther {name : Text} (span : Span) (different : name ≠ tag) :
    (o.leave source name span).only tag = o.only tag := by
  unfold leave
  cases o.opened.get? name with
  | none => rfl
  | some r =>
    simp only
    split
    · exact congrArg (Outline.mk · _) (Table.putOnlyOther _ _ different)
    · rw [onlyRecordOther _ _ different]
      exact congrArg (Outline.mk · _) (Table.eraseOnlyOther _ different)

theorem leaveOnlyOther {name : Text} (span : Span) (different : name ≠ tag) :
    (o.only tag).leave source name span = o.only tag := by
  have none : (o.only tag).opened.get? name = none := Table.getOnlyOther _ different
  unfold leave
  rw [none]

theorem onlyStep {requested : List Text} (asked : tag ∈ requested) (e : Event) :
    (o.step requested source e).only tag = (o.only tag).step [tag] source e := by
  cases e with
  | opened start =>
    simp only [step]
    by_cases same : start.name = tag
    · subst same
      rw [if_pos (by simpa using asked), if_pos (by simp), onlyEnterSame]
    · rw [if_neg (c := [tag].contains start.name = true) (by simpa using same)]
      split
      · exact onlyEnterOther same
      · rfl
  | closed name span =>
    simp only [step]
    by_cases same : name = tag
    · subst same
      exact onlyLeaveSame span
    · rw [onlyLeaveOther span same, leaveOnlyOther span same]
  | text span => rfl
  | comment span => rfl

theorem onlyRun {requested : List Text} (asked : tag ∈ requested) (events : List Event) :
    (run requested source events).only tag = run [tag] source events := by
  have onward (o : Outline) : (events.foldl (step requested source) o).only tag =
      events.foldl (step [tag] source) (o.only tag) := by
    induction events generalizing o with
    | nil => rfl
    | cons e rest ih => rw [List.foldl_cons, List.foldl_cons, ih, onlyStep asked]
  exact onward empty

theorem runSame {requested more : List Text} (same : ∀ name, name ∈ requested ↔ name ∈ more) :
    run requested source = run more source := by
  have steps : step requested source = step more source := by
    funext o e
    cases e with
    | opened start =>
      have : requested.contains start.name = more.contains start.name := by
        rw [Bool.eq_iff_iff]
        simpa using same start.name
      simp only [step, this]
    | closed name span => rfl
    | text span => rfl
    | comment span => rfl
  funext events
  unfold run
  rw [steps]

end Only
end Outline

namespace Regions

structure Openings (requested : List Text) (events : List Event) (t : Table Text OpenRegion) :
    Prop where
  distinct : t.Distinct
  origin : ∀ tag r, (tag, r) ∈ t → tag ∈ requested ∧
    ∃ start, .opened start ∈ events ∧ start.name = tag ∧ r.openSpan = start.span

section Openings
variable {requested : List Text} {events : List Event} {o : Outline} {source : Text}

theorem openingsPut {t : Table Text OpenRegion} {start : StartTag} {r : OpenRegion}
    (h : Openings requested events t) (asked : start.name ∈ requested)
    (here : .opened start ∈ events) (opened : r.openSpan = start.span) :
    Openings requested events (t.put start.name r) := by
  refine ⟨Table.distinctPut h.distinct _ _, fun tag s member => ?_⟩
  rcases Table.keyOfPut member with ⟨same, value⟩ | old
  · have same : tag = start.name := by simpa using same
    have value : s = r := value
    subst same value
    exact ⟨asked, start, here, rfl, opened⟩
  · exact h.origin tag s old

theorem openingsKeep {t : Table Text OpenRegion} {name : Text} {r s : OpenRegion}
    (h : Openings requested events t) (held : t.get? name = some r)
    (same : s.openSpan = r.openSpan) : Openings requested events (t.put name s) := by
  obtain ⟨asked, start, here, rfl, opened⟩ := h.origin name r (Table.memberOfGet held)
  exact openingsPut h asked here (same.trans opened)

theorem openingsStep {e : Event} (here : e ∈ events) (h : Openings requested events o.opened) :
    Openings requested events (o.step requested source e).opened := by
  cases e with
  | opened start =>
    simp only [Outline.step]
    split
    · rename_i asked
      have asked : start.name ∈ requested := by simpa using asked
      unfold Outline.enter
      split
      · rename_i r held
        split
        · exact h
        · exact openingsKeep h held rfl
      · simp only
        split
        · exact h
        · exact openingsPut h asked here rfl
    · exact h
  | closed name span =>
    simp only [Outline.step, Outline.leave]
    split
    · exact h
    · rename_i r held
      split
      · exact openingsKeep h held rfl
      · exact ⟨Table.distinctErase h.distinct name,
          fun tag s member => h.origin tag s (List.mem_of_mem_filter member)⟩
  | text span => exact h
  | comment span => exact h

theorem openingsRun : Openings requested events (Outline.run requested source events).opened := by
  have onward (rest : List Event) (inside : ∀ e ∈ rest, e ∈ events) (o : Outline)
      (h : Openings requested events o.opened) :
      Openings requested events (rest.foldl (Outline.step requested source) o).opened := by
    induction rest generalizing o with
    | nil => exact h
    | cons e rest ih =>
      exact ih (fun f member => inside f (List.mem_cons_of_mem e member)) _
        (openingsStep (inside e List.mem_cons_self) h)
  refine onward events (fun _ member => member) Outline.empty ⟨List.Pairwise.nil, ?_⟩
  simp [Outline.empty]

end Openings

theorem firstOpenLeast {t : Table Text OpenRegion} {tag : Text} {r : OpenRegion}
    (first : Outline.firstOpen? t = some (tag, r)) :
    (tag, r) ∈ t ∧ ∀ entry ∈ t, r.openSpan.start ≤ entry.2.openSpan.start := by
  induction t generalizing tag r with
  | nil => contradiction
  | cons entry rest ih =>
    obtain ⟨name, s⟩ := entry
    simp only [Outline.firstOpen?] at first
    split at first
    · rename_i other later found
      obtain ⟨member, least⟩ := ih found
      split at first
      · cases first
        exact ⟨List.mem_cons_of_mem _ member, List.forall_mem_cons.mpr ⟨by simp only; omega, least⟩⟩
      · cases first
        refine ⟨List.mem_cons_self, List.forall_mem_cons.mpr ⟨Nat.le_refl _, ?_⟩⟩
        intro entry inRest
        have := least entry inRest
        omega
    · rename_i none
      cases first
      rw [firstOpenNone.mp none]
      simp

theorem sameOpening {document rest : Text} {events : List Event} {a b : StartTag}
    (cuts : Markup.Cuts 0 document events rest) (left : .opened a ∈ events)
    (right : .opened b ∈ events) (same : a.span.start = b.span.start) : a = b := by
  obtain ⟨i, first⟩ := List.getElem?_of_mem left
  obtain ⟨j, second⟩ := List.getElem?_of_mem right
  have ascends := spanAscends cuts first
  have ascends' := spanAscends cuts second
  simp only [Event.span] at ascends ascends'
  rcases Nat.lt_trichotomy i j with before | rfl | after
  · have := spansInOrder cuts first second before
    simp only [Event.span] at this
    omega
  · rw [first] at second
    cases second
    rfl
  · have := spansInOrder cuts second first after
    simp only [Event.span] at this
    omega

theorem resultError {o : Outline} {e : Markup.ParseError} :
    o.result = .error e ↔
      ∃ tag r, Outline.firstOpen? o.opened = some (tag, r) ∧ e = ⟨.unclosedTag tag, r.openSpan⟩ := by
  unfold Outline.result
  split
  · rename_i tag r first
    simp [first, eq_comm]
  · rename_i none
    simp [none]

/- One of the tags alone fails with `e`, and whatever another of them alone fails with is `e` itself
or begins at a later place. -/
def Earliest (source : Text) (tags : List Text) (e : Markup.ParseError) : Prop :=
  ∃ tag ∈ tags, sectionsOf source [tag] = .error (.parse e) ∧
    ∀ other ∈ tags, ∀ late, sectionsOf source [other] = .error (.parse late) →
      late = e ∨ e.span.start < late.span.start

section Requests
variable {source : Text} {tags requested : List Text} {events : List Event}

theorem aloneRead (valid : requestedTags tags = .ok requested)
    (read : Markup.events source = .ok events) {tag : Text} (asked : tag ∈ tags) :
    sectionsOf source [tag] =
      (((Outline.run requested source events).only (Text.lower tag)).result).mapError .parse := by
  obtain ⟨_, named, rfl⟩ := requestedAll.mp valid
  have alone : requestedTags [tag] = .ok [Text.lower tag] :=
    requestedOne.mpr ⟨named tag asked, rfl⟩
  rw [sectionsOfRead alone read, Outline.onlyRun (List.mem_map_of_mem asked)]

theorem aloneUnread (valid : requestedTags tags = .ok requested) {e : Markup.ParseError}
    (failed : Markup.events source = .error e) {tag : Text} (asked : tag ∈ tags) :
    sectionsOf source [tag] = .error (.parse e) := by
  obtain ⟨_, named, _⟩ := requestedAll.mp valid
  exact sectionsOfUnread (requestedOne.mpr ⟨named tag asked, rfl⟩) failed

theorem aloneSections (valid : requestedTags tags = .ok requested) {sections : List Section}
    (made : sectionsOf source tags = .ok sections) {tag : Text} (asked : tag ∈ tags) :
    sectionsOf source [tag] = .ok (sections.filter fun s => s.tag = Text.lower tag) := by
  obtain ⟨_, events, again, read⟩ := sectionsOfSteps made
  cases valid.symm.trans again
  obtain ⟨zero, rfl⟩ := (sectionsOfOk valid read).mp made
  have closed := (openedEmpty (followsRun requested source events)).mpr zero
  rw [aloneRead valid read asked]
  unfold Outline.result Outline.only
  rw [closed]
  rfl

theorem aloneOpened (valid : requestedTags tags = .ok requested)
    (read : Markup.events source = .ok events) {tag : Text} (asked : tag ∈ tags)
    {e : Markup.ParseError} (failed : sectionsOf source [tag] = .error (.parse e)) :
    ∃ name r, (name, r) ∈ (Outline.run requested source events).opened ∧
      e = ⟨.unclosedTag name, r.openSpan⟩ := by
  rw [aloneRead valid read asked] at failed
  have alone : ((Outline.run requested source events).only (Text.lower tag)).result = .error e := by
    cases outcome : ((Outline.run requested source events).only (Text.lower tag)).result with
    | ok sections => rw [outcome] at failed; contradiction
    | error f => rw [outcome] at failed; cases failed; rfl
  obtain ⟨name, r, first, same⟩ := resultError.mp alone
  exact ⟨name, r, List.mem_of_mem_filter (firstOpenLeast first).1, same⟩

theorem openingsOnce (read : Markup.events source = .ok events) {t : Table Text OpenRegion}
    (h : Openings requested events t) {a b : Text × OpenRegion} (left : a ∈ t) (right : b ∈ t)
    (same : a.2.openSpan.start = b.2.openSpan.start) : a = b := by
  obtain ⟨name, r⟩ := a
  obtain ⟨name', r'⟩ := b
  obtain ⟨_, start, here, rfl, opened⟩ := h.origin name r left
  obtain ⟨_, start', here', rfl, opened'⟩ := h.origin name' r' right
  obtain ⟨rest, cuts⟩ := Markup.eventsCuts read
  have one : start = start' := sameOpening cuts here here' (by rw [← opened, ← opened']; exact same)
  subst one
  have only : (start.name, r) ∈ [(start.name, r')] := by
    rw [← Table.onlyOne h.distinct right]
    exact List.mem_filter.mpr ⟨left, BEq.rfl⟩
  exact List.mem_singleton.mp only

theorem earliestError (valid : requestedTags tags = .ok requested)
    (read : Markup.events source = .ok events) {e : Markup.ParseError}
    (failed : (Outline.run requested source events).result = .error e) :
    Earliest source tags e := by
  obtain ⟨name, r, first, rfl⟩ := resultError.mp failed
  obtain ⟨member, least⟩ := firstOpenLeast first
  have openings : Openings requested events (Outline.run requested source events).opened :=
    openingsRun
  have asked := (openings.origin name r member).1
  obtain ⟨_, _, lowered⟩ := requestedAll.mp valid
  rw [lowered] at asked
  obtain ⟨tag, inTags, rfl⟩ := List.mem_map.mp asked
  refine ⟨tag, inTags, ?_, ?_⟩
  · rw [aloneRead valid read inTags]
    unfold Outline.result Outline.only
    rw [Table.onlyOne openings.distinct member]
    rfl
  · intro other inOthers late lone
    obtain ⟨second, t, inAll, rfl⟩ := aloneOpened valid read inOthers lone
    rcases Nat.lt_or_eq_of_le (least _ inAll) with before | same
    · exact .inr before
    · cases openingsOnce read openings member inAll same
      exact .inl rfl

theorem requestsError (valid : requestedTags tags = .ok requested) {failure : SectionError}
    (failed : sectionsOf source tags = .error failure) :
    ∃ e, failure = .parse e ∧ Earliest source tags e := by
  cases read : Markup.events source with
  | error e =>
    -- the document cannot be read, whatever is asked for
    rw [sectionsOfUnread valid read] at failed
    cases failed
    obtain ⟨some, _⟩ := requestedAll.mp valid
    obtain ⟨tag, asked⟩ := List.exists_mem_of_ne_nil tags some
    refine ⟨e, rfl, tag, asked, aloneUnread valid read asked, ?_⟩
    intro other inOthers late lone
    rw [aloneUnread valid read inOthers] at lone
    cases lone
    exact .inl rfl
  | ok events =>
    rw [sectionsOfRead valid read] at failed
    cases outcome : (Outline.run requested source events).result with
    | ok sections => rw [outcome] at failed; contradiction
    | error e =>
      rw [outcome] at failed
      cases failed
      exact ⟨e, rfl, earliestError valid read outcome⟩

theorem requestsSame {others more : List Text} (valid : requestedTags tags = .ok requested)
    (accepted : requestedTags others = .ok more)
    (same : ∀ name, name ∈ others.map Text.lower ↔ name ∈ tags.map Text.lower) :
    sectionsOf source others = sectionsOf source tags := by
  obtain ⟨_, _, lowered⟩ := requestedAll.mp valid
  obtain ⟨_, _, lowered'⟩ := requestedAll.mp accepted
  rw [← lowered, ← lowered'] at same
  cases read : Markup.events source with
  | error e => rw [sectionsOfUnread valid read, sectionsOfUnread accepted read]
  | ok events => rw [sectionsOfRead valid read, sectionsOfRead accepted read, Outline.runSame same]

/- Requested tags do not interfere. Only the set of lower-case names counts; all of them can be
extracted exactly when each alone can, and each then gets the sections that it gets alone. If not,
the error is the earliest of those that the tags have alone. -/
theorem requestsIndependent (valid : requestedTags tags = .ok requested) :
    (∀ others more, requestedTags others = .ok more →
        (∀ name, name ∈ others.map Text.lower ↔ name ∈ tags.map Text.lower) →
        sectionsOf source others = sectionsOf source tags) ∧
      ((∃ sections, sectionsOf source tags = .ok sections) ↔
        ∀ tag ∈ tags, ∃ sections, sectionsOf source [tag] = .ok sections) ∧
      (∀ sections, sectionsOf source tags = .ok sections → ∀ tag ∈ tags,
        sectionsOf source [tag] = .ok (sections.filter fun s => s.tag = Text.lower tag)) ∧
      ∀ failure, sectionsOf source tags = .error failure →
        ∃ e, failure = .parse e ∧ Earliest source tags e := by
  refine ⟨fun _ _ accepted same => requestsSame valid accepted same, ⟨?_, ?_⟩,
    fun _ made _ asked => aloneSections valid made asked, fun _ failed => requestsError valid failed⟩
  · rintro ⟨sections, made⟩ tag asked
    exact ⟨_, aloneSections valid made asked⟩
  · intro each
    cases outcome : sectionsOf source tags with
    | ok sections => exact ⟨sections, rfl⟩
    | error failure =>
      obtain ⟨e, _, tag, asked, lone, _⟩ := requestsError valid outcome
      obtain ⟨sections, made⟩ := each tag asked
      rw [lone] at made
      contradiction

theorem overlappingRequests :
    requestedTags ["b", "A", "a"] = .ok ["b", "a", "a"] ∧
      sectionsOf "<a>1<b>2</a></b><A/>" ["a", "B"] = sectionsOf "<a>1<b>2</a></b><A/>" ["b", "A", "a"] ∧
      sectionsOf "<a>1<b>2</a></b><A/>" ["A"] =
        .ok [⟨"a", "1<b>2", [], 1, ⟨3, 8⟩⟩, ⟨"a", [], [], 1, ⟨20, 20⟩⟩] ∧
      ∃ e, sectionsOf "<b><a></u>" ["b", "A", "a"] = .error (.parse e) ∧
        Earliest "<b><a></u>" ["b", "A", "a"] e := by
  have valid : requestedTags ["b", "A", "a"] = .ok ["b", "a", "a"] := by decide +kernel
  have made : sectionsOf "<a>1<b>2</a></b><A/>" ["b", "A", "a"] =
      .ok [⟨"a", "1<b>2", [], 1, ⟨3, 8⟩⟩, ⟨"b", "2</a>", [], 1, ⟨7, 12⟩⟩,
        ⟨"a", [], [], 1, ⟨20, 20⟩⟩] := by decide +kernel
  have failed : sectionsOf "<b><a></u>" ["b", "A", "a"] =
      .error (.parse ⟨.unclosedTag "b", ⟨0, 3⟩⟩) := by decide +kernel
  obtain ⟨anyOrder, _, each, _⟩ := @requestsIndependent "<a>1<b>2</a></b><A/>" _ _ valid
  obtain ⟨_, _, _, blame⟩ := @requestsIndependent "<b><a></u>" _ _ valid
  obtain ⟨e, same, earliest⟩ := blame _ failed
  refine ⟨valid, anyOrder ["a", "B"] ["a", "b"] (by decide +kernel) ?_, each _ made "A" (by decide),
    e, same ▸ failed, earliest⟩
  have lowered : (["a", "B"] : List Text).map Text.lower = [['a'], ['b']] ∧
      (["b", "A", "a"] : List Text).map Text.lower = [['b'], ['a'], ['a']] := by decide
  intro name
  simp only [lowered.1, lowered.2, List.mem_cons, List.not_mem_nil, or_false, or_self]
  exact or_comm

end Requests

end Regions
end ComponentFile
