import ComponentFile.Proofs.Markup.RawText
import ComponentFile.Proofs.Section.Concatenation
import ComponentFile.Proofs.Section.Nesting
import ComponentFile.Proofs.Section.TagNames

/-! A document that is one element without attributes. Whatever may stand between its two tags comes
out as the text of its section, character by character. -/
namespace ComponentFile.Regions
open Markup (Event State)

/- What may stand between the tags of an element: where text is raw, all but an end tag of that
name, and elsewhere what reads by itself and has the tags of that name balanced. -/
inductive Admissible (tag content : Text) : Prop where
  | raw (known : Text.lower tag ∈ Markup.rawElements)
      (absent : ∀ before close d after, content = before ++ '<' :: '/' :: close ++ d :: after →
        Text.lower close = Text.lower tag → ¬ (Text.isBlank d = true ∨ d = '/' ∨ d = '>'))
  | nested {events : List Event} (other : Text.lower tag ∉ Markup.rawElements)
      (read : Markup.events content = .ok events) (balanced : Balanced (Text.lower tag) events)

def element (tag content : Text) : Text := bareTag tag ++ content ++ bareEndTag tag

section Element
variable {tag content : Text}

theorem bareEndTagDrain {s : State} (valid : isTagName tag = true) (raw : s.raw = none)
    (here : s.pending = bareEndTag tag) :
    s.drain true = ([bareEndTagEvent tag s.pos], .ok (s.moved (bareEndTag tag) [])) := by
  have closes : s.plain true = .emit (bareEndTagEvent tag s.pos) (s.moved (bareEndTag tag) []) :=
    bareEndTagPlain valid (by simpa using here)
  have same : s.step true = s.plain true := by simp only [State.step, raw]
  exact State.lastDrain (same.trans closes) rfl rfl

theorem bareEndTagEvents (valid : isTagName tag = true) :
    ∃ whole, Markup.events (bareEndTag tag) = .ok whole ∧
      Markup.withoutText whole = [bareEndTagEvent tag 0] :=
  Markup.eventsOfDrain (bareEndTagDrain (s := State.start.extend (bareEndTag tag)) valid rfl rfl)

theorem bareTagEvents (valid : isTagName tag = true) (other : Text.lower tag ∉ Markup.rawElements) :
    ∃ whole, Markup.events (bareTag tag) = .ok whole ∧
      Markup.withoutText whole = [bareTagEvent tag 0] := by
  have opens : (State.start.extend (bareTag tag)).step true = _ :=
    bareTagStep valid rfl (List.append_nil _).symm
  exact Markup.eventsOfDrain (State.lastDrain opens rfl (by simp [other]))

/- The end tag behind the content is the first one: another that begins inside the content and does
not end there would have an angle in its name or right behind it. -/
theorem rawContentEnds (known : Text.lower tag ∈ Markup.rawElements)
    (absent : ∀ before close d after, content = before ++ '<' :: '/' :: close ++ d :: after →
      Text.lower close = Text.lower tag → ¬ (Text.isBlank d = true ∨ d = '/' ∨ d = '>')) :
    Markup.rawEnd (Text.lower tag) true (content ++ bareEndTag tag) =
      .found content (bareEndTag tag) := by
  refine Markup.rawEndFirst.mpr ⟨⟨tag, ['>'], rfl, rfl, by rintro _ ⟨⟩; rfl⟩, ?_⟩
  rintro front back cut some ⟨close, after, same, named, ends⟩
  have angle : '<' ∉ close := State.rawElementClean known named (by decide) (by decide)
  have solid : ¬ State.endsTagName '<' = true := by decide
  -- what stands in the content of the end tag that begins there
  obtain ⟨piece, rfl, onward⟩ : ∃ piece, back = '<' :: '/' :: piece ∧
      piece ++ bareEndTag tag = close ++ after := by
    match back, some, same with
    | [b], _, same => simp [bareEndTag] at same
    | b :: c :: piece, _, same =>
      simp only [List.cons_append, List.cons.injEq] at same
      obtain ⟨rfl, rfl, same⟩ := same
      exact ⟨piece, rfl, same⟩
  rcases List.append_eq_append_iff.mp onward with ⟨reach, rfl, split⟩ | ⟨rest, rfl, rfl⟩
  · cases reach with
    | nil =>
      rw [List.nil_append] at split
      exact solid (ends '<' (by rw [← split]; rfl))
    | cons c reach =>
      have first : '<' = c := (List.cons.inj split).1
      exact angle (List.mem_append_right piece (by rw [first]; exact List.mem_cons_self))
  · cases rest with
    | nil => exact solid (ends '<' rfl)
    | cons d rest =>
      refine absent front close d rest ?_ named (Markup.endsTagNameExact.mp (ends d rfl))
      simp [cut]

theorem rawContentDrain {s : State} (valid : isTagName tag = true)
    (raw : s.raw = some (Text.lower tag)) (here : s.pending = content ++ bareEndTag tag)
    (ends : Markup.rawEnd (Text.lower tag) true (content ++ bareEndTag tag) =
      .found content (bareEndTag tag)) :
    ∃ found last, s.drain true = (found, .ok last) ∧
      Markup.withoutText found = [bareEndTagEvent tag (s.pos + content.size)] := by
  cases content with
  | nil =>
    have closes : s.plain true = .emit (bareEndTagEvent tag s.pos) (s.moved (bareEndTag tag) []) :=
      bareEndTagPlain valid (by simpa using here)
    rw [List.nil_append] at here ends
    have same : s.step true = s.plain true := by simp only [State.step, raw, here, ends]
    exact ⟨_, _, State.lastDrain (same.trans closes) rfl rfl, rfl⟩
  | cons c more =>
    have text : s.step true = s.emitText (c :: more) (bareEndTag tag) := by
      simp only [State.step, raw, here, ends]
    exact ⟨_, _, by rw [State.drainEmit text, bareEndTagDrain valid rfl rfl], rfl⟩

theorem rawElementEvents (valid : isTagName tag = true)
    (known : Text.lower tag ∈ Markup.rawElements)
    (ends : Markup.rawEnd (Text.lower tag) true (content ++ bareEndTag tag) =
      .found content (bareEndTag tag)) :
    ∃ whole, Markup.events (element tag content) = .ok whole ∧ Markup.withoutText whole =
      [bareTagEvent tag 0, bareEndTagEvent tag ((bareTag tag).size + content.size)] := by
  have opens : (State.start.extend (element tag content)).step true = _ :=
    bareTagStep valid rfl (List.append_assoc _ _ _)
  rw [if_pos (by simpa using known)] at opens
  obtain ⟨found, last, drained, closed⟩ := rawContentDrain
    (s := { (State.start.extend (element tag content)).moved (bareTag tag)
      (content ++ bareEndTag tag) with raw := some (Text.lower tag) }) valid rfl rfl ends
  have reading := State.drainEmit opens
  rw [drained] at reading
  obtain ⟨whole, read, same⟩ := Markup.eventsOfDrain reading
  have front : (State.start.extend (element tag content)).pos = 0 := rfl
  simp only [State.moved, front, Nat.zero_add] at closed
  refine ⟨whole, read, same.trans ?_⟩
  rw [bareTagEvent, Markup.withoutTextTag, closed, front]
  rfl

theorem nestedElementEvents {events : List Event} (valid : isTagName tag = true)
    (other : Text.lower tag ∉ Markup.rawElements) (read : Markup.events content = .ok events) :
    ∃ whole, Markup.events (element tag content) = .ok whole ∧ Markup.withoutText whole =
      bareTagEvent tag 0 :: ((Markup.withoutText events).map (Event.shift (bareTag tag).size) ++
        [bareEndTagEvent tag ((bareTag tag).size + content.size)]) := by
  obtain ⟨front, opened, starts⟩ := bareTagEvents valid other
  obtain ⟨back, closed, stops⟩ := bareEndTagEvents valid
  obtain ⟨behind, rest, inner⟩ :=
    (Markup.eventsBehind read (.inr (.inr rfl))).1 back closed
  have last : (bareTag tag).getLast? = some '>' := List.getLast?_concat
  obtain ⟨whole, both, outer⟩ :=
    (Markup.eventsBehind opened (.inl (by rw [last]; decide))).1 behind rest
  rw [← List.append_assoc] at both
  refine ⟨whole, both, ?_⟩
  rw [outer, starts, inner, stops]
  simp [bareEndTagEvent, Event.shift, Span.shift, Nat.add_assoc]

theorem elementEvents (valid : isTagName tag = true) (admissible : Admissible tag content) :
    ∃ whole middle, Markup.events (element tag content) = .ok whole ∧
      Balanced (Text.lower tag) middle ∧ Markup.withoutText whole = bareTagEvent tag 0 ::
        (middle ++ [bareEndTagEvent tag ((bareTag tag).size + content.size)]) := by
  cases admissible with
  | raw known absent =>
    obtain ⟨whole, read, tags⟩ := rawElementEvents valid known (rawContentEnds known absent)
    exact ⟨whole, [], read, balancedNil _, tags⟩
  | nested other read balanced =>
    obtain ⟨whole, reads, tags⟩ := nestedElementEvents valid other read
    exact ⟨whole, _, reads, balancedMoved _ balanced, tags⟩

theorem bareTagLine (valid : isTagName tag = true) (rest : Text) :
    (Lines.ofText (bareTag tag ++ rest)).lineAt (bareTag tag).size = 0 := by
  have last : (bareTag tag).getLast? = some '>' := List.getLast?_concat
  have whole := (tagNameShape.mp valid).whole
  have feed : '\n' ∉ bareTag tag := by
    simpa [bareTag] using fun member => absurd (whole '\n' member) (by decide)
  have lone : '\r' ∉ bareTag tag := by
    simpa [bareTag] using fun member => absurd (whole '\r' member) (by decide)
  rw [Lines.lineAtBreaks (by rw [last]; simp), Text.lineBreaks, List.count_eq_zero.mpr feed,
    List.count_eq_zero.mpr lone, Nat.zero_add, Nat.zero_sub]

/- Whatever is admissible between its tags comes out of an element as it is: one section, with the
name in lower case, all of the content, and the first line. -/
theorem embeddedContent {requested : List Text} (valid : requestedTags [tag] = .ok requested)
    (admissible : Admissible tag content) :
    sectionsOf (element tag content) [tag] =
      .ok [⟨Text.lower tag, content, [], 1,
        ⟨(bareTag tag).size, (bareTag tag).size + content.size⟩⟩] := by
  obtain ⟨named, rfl⟩ := requestedOne.mp valid
  obtain ⟨whole, middle, read, balanced, tags⟩ := elementEvents named admissible
  have text : Text.slice? (element tag content) (bareTag tag).size
      ((bareTag tag).size + content.size) = some content := Text.sliceMiddle _ _ _
  have line : (Lines.ofText (element tag content)).lineAt (bareTag tag).size = 0 := by
    rw [element, List.append_assoc]
    exact bareTagLine named _
  have run : Outline.run [Text.lower tag] (element tag content) whole =
      ⟨[], [⟨Text.lower tag, content, [], 1,
        ⟨(bareTag tag).size, (bareTag tag).size + content.size⟩⟩]⟩ := by
    rw [← runTags, tags]
    refine Eq.trans (enclosedRun rfl rfl balanced) ?_
    simp [Outline.record, Outline.empty, Outline.distinct, Table.contains, Span.slice?, text, line]
  rw [sectionsOfRead valid read, run]
  rfl

end Element

theorem embeddedScriptAndTemplate :
    sectionsOf (element "Script" "</script") ["Script"] =
        .ok [⟨"script", "</script", [], 1, ⟨8, 16⟩⟩] ∧
      sectionsOf (element "t" "<T/><t a='</t>'><!--</t>--></T><") ["t"] =
        .ok [⟨"t", "<T/><t a='</t>'><!--</t>--></T><", [], 1, ⟨3, 35⟩⟩] := by
  have script : requestedTags ["Script"] = .ok ["script"] := by decide +kernel
  have template : requestedTags ["t"] = .ok ["t"] := by decide +kernel
  have raw : Admissible "Script" "</script" := by
    refine .raw (by decide) fun before close d after cut named => ?_
    -- an end tag with a character behind it is longer than this
    have long := congrArg List.length cut
    have name := congrArg List.length named
    simp [Text.lower] at long name
    omega
  have read : Markup.events "<T/><t a='</t>'><!--</t>--></T><" = .ok
      [.opened ⟨"t", [], ⟨0, 4⟩, true⟩, .opened ⟨"t", [⟨"a", "</t>", ⟨7, 15⟩⟩], ⟨4, 16⟩, false⟩,
        .comment ⟨16, 27⟩, .closed "t" ⟨27, 31⟩, .text ⟨31, 32⟩] := by decide +kernel
  have nested : Admissible "t" "<T/><t a='</t>'><!--</t>--></T><" :=
    .nested (by decide) read (by decide +kernel)
  exact ⟨embeddedContent script raw, embeddedContent template nested⟩

end ComponentFile.Regions
