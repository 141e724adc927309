import ComponentFile.Proofs.Markup.ByPosition
import ComponentFile.Proofs.Section.Contents

/-! Extraction by byte positions, with the numbers that it keeps as words. A depth below zero, a
number that is no word, a line before the first and a span that goes backwards have no outcome. Up to
32 bits of text there is always an outcome, and it is that of extraction by characters. -/
namespace ComponentFile
open Markup (Event StartTag ParseError Cuts Reader State)

/- The line of a byte is counted by the line starts up to it, less one. -/
def Lines.lineAt? (l : Lines) (offset : Nat) : Option Nat :=
  let starts := l.starts.countP (· ≤ offset)
  if 1 ≤ starts then some (starts - 1) else none

theorem Lines.lineAtExact (t : Text) (offset : Nat) :
    (ofText t).lineAt? offset = some ((ofText t).lineAt offset) := by
  simp [lineAt?, lineAt, ofText]

namespace Outline

def record? (source : Text) (o : Outline) (tag : Text) (attributes : Table Text Text)
    (content : Span) : Option Outline := do
  let offset ←
    if attributes.contains "src" then some 0
    else do
      let line ← (Lines.ofText source).lineAt? content.start
      Word.add? line 1
  some { o with sections :=
    o.sections ++ [⟨tag, (content.slice? source).getD [], attributes, offset, content⟩] }

def enter? (source : Text) (o : Outline) (tag : StartTag) : Option Outline :=
  match o.opened.get? tag.name with
  | some s =>
      if tag.selfClosing then some o
      else do
        let depth ← Word.add? s.depth 1
        some { o with opened := o.opened.put tag.name { s with depth := depth } }
  | none =>
      let attributes := distinct tag.attributes
      if tag.selfClosing then o.record? source tag.name attributes (Span.empty tag.span.stop)
      else some { o with opened := o.opened.put tag.name ⟨1, attributes, tag.span.stop, tag.span⟩ }

def leave? (source : Text) (o : Outline) (name : Text) (span : Span) : Option Outline :=
  match o.opened.get? name with
  | none => some o
  | some s =>
      if s.depth < 1 then none
      else if 0 < s.depth - 1 then
        some { o with opened := o.opened.put name { s with depth := s.depth - 1 } }
      else do
        let content ← Span.forward? s.contentStart span.start
        { o with opened := o.opened.erase name }.record? source name s.attributes content

def step? (tags : List Text) (source : Text) (o : Outline) : Event → Option Outline
  | .opened tag => if tags.contains tag.name then o.enter? source tag else some o
  | .closed name span => o.leave? source name span
  | .text _ => some o
  | .comment _ => some o

def run? (tags : List Text) (source : Text) (events : List Event) : Option Outline :=
  events.foldlM (step? tags source) empty

end Outline

def sections? (source : Text) (tags : List Text) : Option (Except SectionError (List Section)) :=
  match requestedTags tags with
  | .error e => some (.error e)
  | .ok tags =>
      if source.size < Word.size32 then do
        let (events, last) ← Reader.start.feed? [source]
        let outline ← Outline.run? tags source events
        match last with
        | .error e => some (.error (.parse e))
        | .ok _ => some (outline.result.mapError .parse)
      else none

namespace Regions

theorem depthAfterMost (tag : Text) (n : Nat) (e : Event) : depthAfter tag n e ≤ n + 1 := by
  unfold depthAfter
  split
  · split <;> omega
  · split <;> omega
  · exact Nat.le_succ n
  · exact Nat.le_succ n

theorem depthWithin (tag : Text) (events : List Event) : depth tag events ≤ events.length := by
  have onward (n : Nat) : events.foldl (depthAfter tag) n ≤ n + events.length := by
    induction events generalizing n with
    | nil => exact Nat.le_refl n
    | cons e rest ih =>
      have once := depthAfterMost tag n e
      have later := ih (depthAfter tag n e)
      rw [List.foldl_cons, List.length_cons]
      omega
  have whole := onward 0
  rwa [Nat.zero_add] at whole

theorem cutsLength {pos : Nat} {t rest : Text} {events : List Event} (h : Cuts pos t events rest) :
    events.length ≤ t.size := by
  induction h with
  | nil => exact Nat.zero_le _
  | cons taken nonempty span angles tail ih =>
    have := Text.sizePositive nonempty
    rw [List.length_cons, Text.sizeAppend]
    omega

theorem lineBehindAngle (before after : Text) :
    (Lines.ofText (before ++ ['>'] ++ after)).lineAt (Text.size (before ++ ['>'])) ≤ before.size := by
  rw [Lines.lineAtCut, Lines.breakEndsAppend, List.length_append]
  exact Lines.breakEndsLength 0 _ before

section Outcomes
variable {requested : List Text} {source rest : Text} {events : List Event} {o : Outline}

theorem lineBehindTag (cuts : Cuts 0 source events rest) {start : StartTag}
    (member : .opened start ∈ events) :
    (Lines.ofText source).lineAt start.span.stop + 1 ≤ source.size := by
  obtain ⟨before, taken, after, splits, _, span, angles⟩ := Markup.cutsPlace cuts member
  obtain ⟨inside, rfl⟩ := angles start rfl
  have whole : source = before ++ '<' :: inside ++ ['>'] ++ after := by simp [splits]
  have place : start.span.stop = Text.size (before ++ '<' :: inside ++ ['>']) := by
    rw [show start.span = _ from span]
    simp only [Text.sizeAppend]
    omega
  rw [place, whole, Text.sizeAppend _ after, Text.sizeAppend _ ['>']]
  have fewer := lineBehindAngle (before ++ '<' :: inside) after
  have one : Text.size ['>'] = 1 := rfl
  rw [Text.sizeAppend _ ['>']] at fewer
  omega

theorem recordExact (cuts : Cuts 0 source events rest) (short : source.size < Word.size32)
    {start : StartTag} (member : .opened start ∈ events) {content : Span}
    (behind : content.start = start.span.stop) (tag : Text) (attributes : Table Text Text) :
    o.record? source tag attributes content = some (o.record source tag attributes content) := by
  have line := Lines.lineAtExact source content.start
  have fits := Nat.lt_of_le_of_lt (lineBehindTag cuts member) short
  rw [← behind] at fits
  unfold Outline.record? Outline.record
  by_cases external : attributes.contains "src" = true
  · simp only [if_pos external]
    rfl
  · simp only [if_neg external, line, Option.bind_eq_bind, Option.bind_some, Word.add?, if_pos fits]

theorem enterExact {n : Nat} (cuts : Cuts 0 source events rest) (short : source.size < Word.size32)
    (follows : Follows requested events n o) {start : StartTag}
    (here : events[n]? = some (.opened start)) :
    o.enter? source start = some (o.enter source start) := by
  have own := follows.tracks start.name
  unfold Outline.enter? Outline.enter
  cases held : o.opened.get? start.name with
  | none =>
    simp only
    split
    · exact recordExact cuts short (List.mem_of_getElem? here) rfl _ _
    · rfl
  | some r =>
    rw [held] at own
    cases own with
    | opened named asked level since attributes content =>
      have most := depthWithin start.name (events.take n)
      have inside := (List.getElem?_eq_some_iff.mp here).1
      have bytes := cutsLength cuts
      rw [List.length_take] at most
      simp only
      split
      · rfl
      · rw [Word.add?, if_pos (by omega)]
        rfl

theorem leaveExact {n : Nat} (cuts : Cuts 0 source events rest) (short : source.size < Word.size32)
    (follows : Follows requested events n o) {name : Text} {span : Span}
    (here : events[n]? = some (.closed name span)) :
    o.leave? source name span = some (o.leave source name span) := by
  have own := follows.tracks name
  unfold Outline.leave? Outline.leave
  cases held : o.opened.get? name with
  | none => rfl
  | some r =>
    rw [held] at own
    cases own with
    | @opened r j start named asked level since attributes content =>
      have positive := sincePositive since
      have order : r.contentStart ≤ span.start := by
        rw [content]
        exact spansInOrder cuts since.here here since.earlier
      rw [named] at positive
      simp only
      rw [if_neg (by omega)]
      by_cases inner : 1 < r.depth
      · rw [if_pos (by omega), if_pos inner]
      · rw [if_neg (by omega), if_neg inner, Span.forward?, if_pos order]
        exact recordExact cuts short (List.mem_of_getElem? since.here) content _ _

example : (Outline.mk [("a", ⟨1, [], 9, ⟨6, 9⟩⟩)] []).leave? "<p></a><a>" "a" ⟨3, 7⟩ = none := by
  decide +kernel

theorem outlineStepExact {n : Nat} (cuts : Cuts 0 source events rest)
    (short : source.size < Word.size32) (follows : Follows requested events n o) {e : Event}
    (here : events[n]? = some e) :
    o.step? requested source e = some (o.step requested source e) := by
  cases e with
  | opened start =>
    simp only [Outline.step?, Outline.step]
    split
    · exact enterExact cuts short follows here
    · rfl
  | closed name span => exact leaveExact cuts short follows here
  | text span => rfl
  | comment span => rfl

theorem outlineRunExact (cuts : Cuts 0 source events rest) (short : source.size < Word.size32)
    (requested : List Text) :
    Outline.run? requested source events = some (Outline.run requested source events) := by
  have upTo (n : Nat) (fits : n ≤ events.length) :
      Outline.run? requested source (events.take n) =
        some (Outline.run requested source (events.take n)) := by
    induction n with
    | zero => rfl
    | succ n ih =>
      have here : events[n]? = some events[n] := List.getElem?_eq_getElem (by omega)
      have follows := followsTake requested source (Nat.le_of_succ_le fits)
      have before := ih (by omega)
      unfold Outline.run? at before ⊢
      rw [runOnward requested source here, List.take_add_one, here, Option.toList_some,
        List.foldlM_append, before]
      have last := outlineStepExact cuts short follows here
      simp [last]
  have whole := upTo events.length (Nat.le_refl _)
  rwa [List.take_length] at whole

end Outcomes
end Regions

theorem startFollows : Reader.start.Follows State.start :=
  ⟨⟨⟨[], rfl, rfl⟩, rfl, by decide⟩, nofun, .inl rfl⟩

theorem sectionsExact {source : Text} (short : source.size < Word.size32) (tags : List Text) :
    sections? source tags = some (sectionsOf source tags) := by
  have read := Reader.feedExact startFollows [source] (by simpa [Reader.start] using short)
  obtain ⟨rest, cuts⟩ := State.feedCuts State.start [source]
  have cuts : Cuts 0 source (State.start.feed [source]).1 rest := by simpa [State.start] using cuts
  unfold sections? sectionsOf Markup.events
  cases requestedTags tags with
  | error e => rfl
  | ok requested =>
    have run := Regions.outlineRunExact cuts short requested
    simp only [if_pos short, read, run, Option.bind_eq_bind, Option.bind_some]
    generalize State.start.feed [source] = reading
    rcases reading with ⟨events, e | held⟩
    · rfl
    · rfl

/- In whatever chunks a text arrives, and whatever tags are asked for, reading and extraction have
their outcomes. -/
theorem readsByPosition {chunks : List Text} (short : Text.size chunks.flatten < Word.size32) :
    Reader.start.feed? chunks =
        some ((State.start.feed chunks).1, (State.start.feed chunks).2.map fun _ => ()) ∧
      ∀ tags, sections? chunks.flatten tags = some (sectionsOf chunks.flatten tags) :=
  ⟨Reader.feedExact startFollows chunks (by simpa [Reader.start] using short), sectionsExact short⟩

theorem readsTornStyle :
    let chunks : List Text := ["<p>é<", "style lang='>", "'>a</s", "tyle ></p>"]
    Text.size chunks.flatten < Word.size32 ∧
      Reader.start.feed? chunks = some
        ([.opened ⟨"p", [], ⟨0, 3⟩, false⟩, .text ⟨3, 5⟩,
          .opened ⟨"style", [⟨"lang", ">", ⟨12, 20⟩⟩], ⟨5, 21⟩, false⟩, .text ⟨21, 22⟩,
          .closed "style" ⟨22, 31⟩, .closed "p" ⟨31, 35⟩], .ok ()) ∧
      sections? chunks.flatten ["STYLE"] =
        some (.ok [⟨"style", "a", [("lang", ">")], 1, ⟨21, 22⟩⟩]) := by
  intro chunks
  have short : Text.size chunks.flatten < Word.size32 := by decide
  obtain ⟨read, extracted⟩ := readsByPosition short
  refine ⟨short, read.trans ?_, (extracted ["STYLE"]).trans ?_⟩
  · decide +kernel
  · decide +kernel

end ComponentFile
