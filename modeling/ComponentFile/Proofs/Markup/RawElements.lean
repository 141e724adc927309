import ComponentFile.Proofs.Markup.Held
import ComponentFile.Proofs.Markup.RawText
import ComponentFile.Proofs.Markup.TagEnd
import ComponentFile.Proofs.Text.Case

/-! Script and style elements in a document that is written in any pieces. What one step answers with
the whole document in sight is what the pieces deliver next, unless text could be cut there; so the
content of such an element is one text up to the first end tag of its name. -/
namespace ComponentFile.Markup

structure FirstEndTag (name content before rest : Text) : Prop where
  splits : content = before ++ rest
  begins : BeginsEndTag name rest
  first : ∀ front back, before = front ++ back → back ≠ [] → ¬ BeginsEndTag name (back ++ rest)

theorem firstEndTagFound {name content before rest : Text}
    (h : rawEnd name true content = .found before rest) : FirstEndTag name content before rest := by
  have splits := rawEndSplits h
  rw [← splits] at h
  obtain ⟨begins, first⟩ := rawEndFirst.mp h
  exact ⟨splits.symm, begins, first⟩

theorem endTagMissing {name content : Text} (h : rawEnd name true content = .missing)
    (before rest : Text) (splits : content = before ++ rest) : ¬ BeginsEndTag name rest := by
  induction content generalizing before with
  | nil =>
    obtain ⟨rfl, rfl⟩ := List.append_eq_nil_iff.mp splits.symm
    rintro ⟨close, after, same, _⟩
    contradiction
  | cons c more ih =>
    by_cases begins : BeginsEndTag name (c :: more)
    · rw [rawEndHere begins] at h
      contradiction
    · rcases List.cons_eq_append_iff.mp splits with ⟨_, rfl⟩ | ⟨front, _, inner⟩
      · exact begins
      · refine ih ?_ front inner
        rw [rawEndLater begins] at h
        cases later : rawEnd name true more with
        | missing => rfl
        | wait => exact absurd later State.rawEndDecides
        | found b r => rw [later] at h; contradiction

theorem rawNameLetters {name close : Text} (known : name ∈ rawElements)
    (same : Text.lower close = name) : ∀ c ∈ close, c.isAlpha = true := by
  have letters : rawElements.all (·.all Char.isAlpha) = true := by decide
  intro c member
  rw [← Text.alphaLower]
  apply List.all_eq_true.mp (List.all_eq_true.mp letters name known)
  rw [← same]
  exact List.mem_map_of_mem member

inductive EndTagReading (name : Text) (pos : Nat) :
    Text → List Event → Except ParseError State → Prop where
  | closed {inner after events last} (absent : '>' ∉ inner) :
      EndTagReading name pos (inner ++ '>' :: after)
        (.closed name ⟨pos, pos + Text.size (inner ++ ['>'])⟩ :: events) last
  | cut {rest} (absent : '>' ∉ rest) :
      EndTagReading name pos rest []
        (.error ⟨.unexpectedEnd .endTagEnd, ⟨pos, pos + rest.size⟩⟩)

/- The content of a raw-text element that begins at `pos`, up to the end of the document: one text,
unless it is empty, and then the first end tag of the element; or nothing, where it has no end. -/
inductive RawReading (name : Text) (pos : Nat) (content : Text) :
    List Event → Except ParseError State → Prop where
  | ended {before rest events last} (ends : FirstEndTag name content before rest)
      (reading : EndTagReading name (pos + before.size) rest events last) :
      RawReading name pos content
        ((if before = [] then [] else [.text ⟨pos, pos + before.size⟩]) ++ events) last
  | unclosed (none : ∀ before rest, content = before ++ rest → ¬ BeginsEndTag name rest) :
      RawReading name pos content []
        (.error ⟨.unclosedTag name, ⟨pos, pos + content.size⟩⟩)

namespace State

theorem stepTimely {s : State} {e : ParseError} (h : s.step false = .failed e) :
    ¬ e.fault.OfEnd := by
  have inTag : OfStartTag false (s.step false) := by
    rw [h]
    exact .inl rfl
  have same := (stepStartTag inTag).1.symm.trans h
  rcases startTagFails same with ⟨early, _⟩ | ⟨name, named⟩ | ⟨pos, t, inside, rest, ends, read⟩
  · contradiction
  · rw [named]
    exact id
  · obtain ⟨fault, blames, _⟩ := (endsAlike pos ends).faults e read
    rw [blames]
    exact id

def FailsAtEnd (e : ParseError) (s : State) : List Text → Prop
  | [] => s.finish.2 = .error e
  | chunk :: rest => ∃ events next, s.write chunk = (events, .ok next) ∧ FailsAtEnd e next rest

theorem failsAtEnd {s : State} {chunks : List Text} {e : ParseError}
    (failed : (s.feed chunks).2 = .error e) (late : e.fault.OfEnd) : s.FailsAtEnd e chunks := by
  induction chunks generalizing s with
  | nil => exact failed
  | cons chunk rest ih =>
    rcases reading : s.write chunk with ⟨events, outcome⟩
    cases outcome with
    | error other =>
      rw [feedStopped rest reading] at failed
      have stopped : (s.write chunk).2 = .error e := by rw [reading]; exact failed
      obtain ⟨here, stops⟩ := traceFailure (drainTrace false (s.extend chunk)) stopped
      exact absurd late (stepTimely stops)
    | ok next =>
      rw [feedOnward rest reading] at failed
      exact ⟨events, next, reading, ih failed⟩

section Pieces
variable {s next : State} {chunk : Text} {chunks rest : List Text} {e : Event}

theorem feedWait (waits : (s.extend chunk).step false = .wait) :
    s.feed (chunk :: rest) = (s.extend chunk).feed rest :=
  feedOnward rest (drainWait waits)

inductive Answers (more : List Text) : Step → List Event × Except ParseError State → Prop where
  | failed (failure : ParseError) : Answers more (.failed failure) ([], .error failure)
  | emit (first : Event) (held : State) :
      Answers more (.emit first held) (first :: (held.feed more).1, (held.feed more).2)

theorem feedAnswers (decided : (s.extend chunk).step false ≠ .wait) :
    Answers ([] :: rest) ((s.extend chunk).step false) (s.feed (chunk :: rest)) := by
  cases here : (s.extend chunk).step false with
  | wait => contradiction
  | failed failure =>
    have reading : s.write chunk = ([], .error failure) := drainFailed here
    rw [feedStopped rest reading]
    exact .failed failure
  | emit e next =>
    have reading : s.write chunk = (e :: (next.drain false).1, (next.drain false).2) :=
      drainEmit here
    -- what is left of this write is what a write of nothing delivers
    have onward : s.feed (chunk :: rest) =
        (e :: (next.feed ([] :: rest)).1, (next.feed ([] :: rest)).2) := by
      rcases written : next.write [] with ⟨events, outcome⟩
      rw [← writeNothing, written] at reading
      cases outcome with
      | error failure => rw [feedStopped rest reading, feedStopped rest written]
      | ok held =>
        rw [feedOnward rest reading, feedOnward rest written]
        rfl
    rw [onward]
    exact .emit e next

theorem finishAnswers (decided : s.step true ≠ .wait) : Answers [] (s.step true) (s.feed []) := by
  cases here : s.step true with
  | wait => contradiction
  | failed failure =>
    have reading : s.feed [] = ([], .error failure) := drainFailed here
    rw [reading]
    exact .failed failure
  | emit e next =>
    have reading : s.feed [] = (e :: (next.feed []).1, (next.feed []).2) := drainEmit here
    rw [reading]
    exact .emit e next

def Marked (s : State) (t : Text) : Prop := s.raw = none → (s.pending ++ t).head? = some '<'

theorem markedExtend {t : Text} (marked : s.Marked (chunk ++ t)) : (s.extend chunk).Marked t := by
  intro plain
  rw [extendPending, List.append_assoc]
  exact marked plain

theorem markedNotText {t : Text} (marked : s.Marked t) : ¬ s.InText := by
  rintro ⟨plain, some, free⟩
  have first := marked plain
  cases here : s.pending with
  | nil => exact some here
  | cons c more =>
    rw [here] at first free
    cases first
    exact free '<' List.mem_cons_self rfl

theorem decidedWhole (marked : s.Marked chunks.flatten) (decided : s.step false ≠ .wait) :
    (s.extend chunks.flatten).step true = (s.step false).extend chunks.flatten :=
  (stepExtend chunks.flatten decided).resolve_right (markedNotText marked)

theorem feedDecided (marked : s.Marked chunks.flatten)
    (decided : (s.extend chunks.flatten).step true ≠ .wait) :
    ∃ answer more, Answers more answer (s.feed chunks) ∧
      answer.extend more.flatten = (s.extend chunks.flatten).step true := by
  induction chunks generalizing s with
  | nil =>
    rw [List.flatten_nil, extendNil] at decided ⊢
    refine ⟨s.step true, [], finishAnswers decided, ?_⟩
    cases s.step true with
    | emit e next => exact congrArg (Step.emit e) (extendNil next)
    | _ => rfl
  | cons chunk rest ih =>
    rw [List.flatten_cons] at marked
    rw [List.flatten_cons, extendAppend] at decided ⊢
    by_cases waits : (s.extend chunk).step false = .wait
    · rw [feedWait waits]
      exact ih (markedExtend marked) decided
    · exact ⟨_, [] :: rest, feedAnswers waits, (decidedWhole (markedExtend marked) waits).symm⟩

theorem feedFirst (marked : s.Marked chunks.flatten)
    (whole : (s.extend chunks.flatten).step true = .emit e next) :
    ∃ held more, s.feed chunks = (e :: (State.feed held more).1, (State.feed held more).2) ∧
      held.extend more.flatten = next := by
  obtain ⟨answer, more, answers, same⟩ := feedDecided marked (by simp [whole])
  rw [whole] at same
  generalize s.feed chunks = reading at answers
  cases answers with
  | failed failure => contradiction
  | emit first held =>
    cases same
    exact ⟨held, more, rfl, rfl⟩

theorem feedFirstFails {failure : ParseError} (marked : s.Marked chunks.flatten)
    (whole : (s.extend chunks.flatten).step true = .failed failure) :
    s.feed chunks = ([], .error failure) := by
  obtain ⟨answer, more, answers, same⟩ := feedDecided marked (by simp [whole])
  rw [whole] at same
  generalize s.feed chunks = reading at answers
  cases answers with
  | failed other =>
    cases same
    rfl
  | emit first held => contradiction

end Pieces

section EndTag
variable {s : State} {name : Text}

theorem rawEndTagStep (begins : BeginsEndTag name s.pending) : s.plain true = s.endTag true := by
  obtain ⟨close, behind, whole, _⟩ := begins
  unfold plain
  simp only [whole, List.cons_append, if_true, construct]
  rw [if_neg (by decide)]

theorem angleBehindName {close behind inner after : Text} (letters : ∀ c ∈ close, c.isAlpha = true)
    (splits : '<' :: '/' :: close ++ behind = inner ++ '>' :: after) :
    ∃ tail, inner = '<' :: '/' :: close ++ tail ∧ behind = tail ++ '>' :: after := by
  rcases List.append_eq_append_iff.mp splits with ⟨tail, before, cut⟩ | ⟨tail, before, cut⟩
  · exact ⟨tail, before, cut⟩
  · cases tail with
    | nil => exact ⟨[], by simpa using before.symm, cut.symm⟩
    | cons c more =>
      obtain ⟨rfl, _⟩ := List.cons.inj cut
      have member : '>' ∈ '<' :: '/' :: close := by simp [before]
      have inside : '>' ∈ close := by simpa using member
      exact absurd (letters '>' inside) (by decide)

theorem nameBeforeTail {close tail : Text} (letters : ∀ c ∈ close, c.isAlpha = true)
    (stops : ∀ d ∈ tail.head?, Text.isBlank d = true ∨ d = '/') :
    (close ++ tail).takeWhile (fun c => !(Text.isBlank c || c = '/')) = close := by
  have all : ∀ c ∈ close, (!(Text.isBlank c || c = '/')) = true := by
    intro c member
    have := alphaInTagName (letters c member)
    simp only [endsTagName, Bool.or_eq_false_iff] at this
    simp [this.1.1, this.1.2]
  rw [List.takeWhile_append_of_pos all]
  cases tail with
  | nil => simp
  | cons d more =>
    rcases stops d rfl with blank | slash
    · simp [blank]
    · simp [slash]

theorem rawEndTagCloses (known : name ∈ rawElements) (begins : BeginsEndTag name s.pending)
    {inner after : Text} (splits : s.pending = inner ++ '>' :: after) (absent : '>' ∉ inner) :
    s.plain true =
      .emit (.closed name (s.spanOf (inner ++ ['>']))) (s.moved (inner ++ ['>']) after) := by
  rw [rawEndTagStep begins]
  obtain ⟨close, behind, whole, same, ends⟩ := begins
  have letters := rawNameLetters known same
  obtain ⟨tail, rfl, cut⟩ := angleBehindName letters (whole.symm.trans splits)
  have letter : ((close ++ tail).head?.map Char.isAlpha).getD false = true := by
    cases close with
    | nil => rw [← same] at known; exact absurd known (by decide)
    | cons c more => exact letters c List.mem_cons_self
  -- what stops the name is not the angle, which does not occur before the end
  have stops : ∀ d ∈ tail.head?, Text.isBlank d = true ∨ d = '/' := by
    intro d here
    obtain ⟨more, rfl⟩ := List.head?_eq_some_iff.mp here
    rcases endsTagNameExact.mp (ends d (by simp [cut])) with blank | slash | rfl
    · exact .inl blank
    · exact .inr slash
    · simp at absent
  have found : Text.breakOn? ['>'] s.pending = some ('<' :: '/' :: close ++ tail, '>' :: after) := by
    rw [splits]
    exact breakOnFirst absent
  unfold endTag
  rw [found]
  simp only [List.cons_append, List.drop_succ_cons, List.drop_zero, letter, if_true,
    nameBeforeTail letters stops, same]

theorem rawEndTagCut (begins : BeginsEndTag name s.pending) (absent : '>' ∉ s.pending) :
    s.plain true = .failed ⟨.unexpectedEnd .endTagEnd, s.spanOf s.pending⟩ := by
  rw [rawEndTagStep begins]
  unfold endTag
  rw [breakOnAbsent absent]
  rfl

theorem feedEndTag {chunks : List Text} (known : name ∈ rawElements)
    (marked : s.Marked chunks.flatten) (begins : BeginsEndTag name (s.pending ++ chunks.flatten))
    (plain : (s.extend chunks.flatten).step true = (s.extend chunks.flatten).plain true) :
    EndTagReading name s.pos (s.pending ++ chunks.flatten) (s.feed chunks).1 (s.feed chunks).2 := by
  by_cases angle : '>' ∈ s.pending ++ chunks.flatten
  · obtain ⟨inner, after, splits, absent⟩ := List.eq_append_cons_of_mem angle
    obtain ⟨held, more, read, _⟩ :=
      feedFirst marked (plain.trans (rawEndTagCloses known begins splits absent))
    rw [read, splits]
    exact .closed absent
  · rw [feedFirstFails marked (plain.trans (rawEndTagCut begins angle))]
    exact .cut angle

theorem feedBehindText {held : State} {chunks : List Text} {taken rest : Text}
    (known : name ∈ rawElements) (begins : BeginsEndTag name rest)
    (behind : held.extend chunks.flatten = s.moved taken rest) :
    EndTagReading name (s.pos + taken.size) rest (held.feed chunks).1 (held.feed chunks).2 := by
  have place : held.pos = s.pos + taken.size := congrArg State.pos behind
  have pending : held.pending ++ chunks.flatten = rest := congrArg State.pending behind
  have plain : held.raw = none := congrArg State.raw behind
  rw [← place, ← pending]
  rw [← pending] at begins
  refine feedEndTag known ?_ begins (by unfold State.step; rw [extendRaw, plain])
  intro _
  obtain ⟨close, after, same, _⟩ := begins
  rw [same]
  rfl

end EndTag

theorem feedRaw {s : State} {name : Text} {chunks : List Text} (raw : s.raw = some name)
    (known : name ∈ rawElements) :
    RawReading name s.pos (s.pending ++ chunks.flatten) (s.feed chunks).1 (s.feed chunks).2 := by
  have marked : s.Marked chunks.flatten := by
    intro plain
    rw [raw] at plain
    contradiction
  cases here : rawEnd name true (s.pending ++ chunks.flatten) with
  | wait => exact absurd here rawEndDecides
  | missing =>
    have step : (s.extend chunks.flatten).step true =
        .failed ⟨.unclosedTag name, s.spanOf (s.pending ++ chunks.flatten)⟩ := by
      simp only [State.step, extendRaw, extendPending, raw, here]
      rfl
    rw [feedFirstFails marked step]
    exact .unclosed (endTagMissing here)
  | found before rest =>
    have ends := firstEndTagFound here
    cases before with
    | nil =>
      have step : (s.extend chunks.flatten).step true = (s.extend chunks.flatten).plain true := by
        simp only [State.step, extendRaw, extendPending, raw, here]
      have begins := ends.begins
      rw [← List.nil_append rest, ← ends.splits] at begins
      refine .ended ends ?_
      have reading := feedEndTag known marked begins step
      rwa [ends.splits] at reading
    | cons c before =>
      have step : (s.extend chunks.flatten).step true =
          (s.extend chunks.flatten).emitText (c :: before) rest := by
        simp only [State.step, extendRaw, extendPending, raw, here]
      obtain ⟨held, more, read, behind⟩ := feedFirst marked step
      rw [read]
      exact .ended ends (feedBehindText known ends.begins behind)

end State

/- Once a script or style element is open, its content is one text up to the first end tag of its
name in the document, wherever that was cut; what has no end fails when the input ends. -/
theorem rawTextEnds {chunks : List Text} {front later : List Event} {tag : StartTag}
    {last : Except ParseError State}
    (read : State.start.feed chunks = (front ++ .opened tag :: later, last))
    (element : tag.name ∈ rawElements) (opens : tag.selfClosing = false) :
    ∃ lead content : Text, chunks.flatten = lead ++ content ∧ lead.size = tag.span.stop ∧
      RawReading tag.name tag.span.stop content later last ∧
      ∀ e, last = .error e → e.fault.OfEnd → State.start.FailsAtEnd e chunks := by
  obtain ⟨here, next, before, more, delivers⟩ := State.feedOrigin read
  obtain ⟨name, inside, opened, document, span⟩ := State.deliveredTag delivers
  have raw : next.raw = some tag.name := by
    rw [opened.raw, opens, List.contains_iff_mem.mpr element]
    rfl
  have reading : RawReading tag.name next.pos (next.pending ++ more.flatten) (next.feed more).1
      (next.feed more).2 := State.feedRaw raw element
  rw [delivers.onward, opened.moves] at reading
  refine ⟨before ++ ('<' :: name ++ inside), next.pending ++ more.flatten, document, ?_, reading, ?_⟩
  · rw [Text.sizeAppend, span]
  · intro e failed late
    exact State.failsAtEnd (by rw [read]; exact failed) late

theorem cutEndTagFound :
    ∃ lead content : Text,
      (["<script>a</scr", "</SCRI", "PT", " x>b"] : List Text).flatten = lead ++ content ∧
        lead.size = 8 ∧ RawReading "script" 8 content
          [.text ⟨8, 14⟩, .closed "script" ⟨14, 25⟩, .text ⟨25, 26⟩] (.ok ⟨26, [], none⟩) := by
  have read : State.start.feed ["<script>a</scr", "</SCRI", "PT", " x>b"] =
      ([] ++ .opened ⟨"script", [], ⟨0, 8⟩, false⟩ ::
        [.text ⟨8, 14⟩, .closed "script" ⟨14, 25⟩, .text ⟨25, 26⟩], .ok ⟨26, [], none⟩) := by
    decide +kernel
  obtain ⟨lead, content, document, size, reading, _⟩ := rawTextEnds read (by decide) rfl
  exact ⟨lead, content, document, size, reading⟩

end ComponentFile.Markup
