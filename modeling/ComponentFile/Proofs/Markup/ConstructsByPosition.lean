import ComponentFile.Proofs.Markup.AttributesByIndex
import ComponentFile.Proofs.Markup.EndsByPosition

/-! What begins at a byte position. The reader keeps all that was written and the position it has
come to, and cuts what it needs out of that. A cut that is not at characters of the text, a span that
goes backwards and an index without a token have no outcome. Where a reader shows what a state holds,
there is an outcome, and it is that of the state. -/
namespace ComponentFile.Markup
open Utf8 (encode asciiOf IsAscii OnlyAscii)

structure Reader where
  source : Text
  pos : Nat
  raw : Option Text

/- What a reader does next. One that waits may have come to know that raw text has ended. -/
inductive Move where
  | wait (held : Reader)
  | failed (e : ParseError)
  | emit (e : Event) (pos : Nat) (raw : Option Text)

namespace Reader

def start : Reader := ⟨[], 0, none⟩

def emitText? (r : Reader) (stop : Nat) : Option Move := do
  let span ← Span.inWords? r.pos stop
  some (.emit (.text span) stop none)

def emitComment? (r : Reader) (stop : Nat) : Option Move := do
  let span ← Span.inWords? r.pos stop
  some (.emit (.comment span) stop none)

def failing? (r : Reader) (fault : Fault) : Option Move := do
  let span ← Span.inWords? r.pos r.source.size
  some (.failed ⟨fault, span⟩)

def awaiting? (final : Bool) (r : Reader) (awaited : Awaited) : Option Move :=
  if final then r.failing? (.unexpectedEnd awaited) else some (.wait r)

def declarationUntil? (final : Bool) (r : Reader) (rest : Text) (opening : Nat) (terminator : Text) :
    Option Move := do
  let body ← Text.dropBytes? opening rest
  match Text.find? terminator body with
  | some place => r.emitComment? (r.pos + opening + place + terminator.size)
  | none => r.awaiting? final (.declarationEnd terminator)

def declaration? (final : Bool) (r : Reader) : Option Move := do
  let rest ← Text.dropBytes? r.pos r.source
  if "<!--".toList.isPrefixOf rest then r.declarationUntil? final rest 4 "-->"
  else if !final && rest.isPrefixOf "<!--".toList then some (.wait r)
  else r.declarationUntil? final rest 2 ">"

def endTag? (final : Bool) (r : Reader) : Option Move := do
  let rest ← Text.dropBytes? r.pos r.source
  match Text.find? ['>'] rest with
  | none => r.awaiting? final .endTagEnd
  | some angle =>
      let stop := r.pos + angle + 1
      let inner ← Text.slice? rest 2 angle
      if (inner.head?.map Char.isAlpha).getD false then
        let length := (Text.findWhere? (fun c => Text.isBlank c || c = '/') inner).getD inner.size
        let name ← Text.slice? inner 0 length
        let span ← Span.inWords? r.pos stop
        some (.emit (.closed name.lower span) stop none)
      else r.emitComment? stop

def startTag? (final : Bool) (r : Reader) : Option Move := do
  let rest ← Text.dropBytes? r.pos r.source
  let behind ← Text.dropBytes? 1 rest
  match Text.findWhere? State.endsTagName behind with
  | none => r.awaiting? final .startTagEnd
  | some length =>
      let nameStop := 1 + length
      let name ← Text.slice? rest 1 nameStop
      if name.any State.spoilsTagName then
        let span ← Span.inWords? (r.pos + 1) (r.pos + nameStop)
        some (.failed ⟨.invalidTagName name, span⟩)
      else
        let interior ← Text.dropBytes? nameStop rest
        match tagEndPlace? none 0 (encode interior) with
        | none => r.awaiting? final (.namedTagEnd name)
        | some angle =>
            let tagStop := nameStop + angle + 1
            let inside ← Text.slice? rest nameStop tagStop
            let read ← Attributes.attributesAt? inside ((r.pos + nameStop) % Word.size32)
            match read with
            | .error e => some (.failed e)
            | .ok (attributes, selfClosing) =>
                let span ← Span.inWords? r.pos (r.pos + tagStop)
                let raw :=
                  if !selfClosing && rawElements.contains name.lower then some name.lower else none
                some (.emit (.opened ⟨name.lower, attributes, span, selfClosing⟩) (r.pos + tagStop) raw)

def construct? (final : Bool) (r : Reader) : Option Move :=
  match (encode r.source)[r.pos + 1]? with
  | none => if final then r.emitText? (r.pos + 1) else some (.wait r)
  | some b =>
      if asciiOf b = '!' ∨ asciiOf b = '?' then r.declaration? final
      else if asciiOf b = '/' then r.endTag? final
      else if (asciiOf b).isAlpha then r.startTag? final
      else r.emitText? (r.pos + 1)

def plain? (final : Bool) (r : Reader) : Option Move := do
  let rest ← Text.dropBytes? r.pos r.source
  if rest.isEmpty then some (.wait r)
  else
    match Text.find? ['<'] rest with
    | some 0 => r.construct? final
    | some place => r.emitText? (r.pos + place)
    | none => r.emitText? r.source.size

structure Shows (r : Reader) (s : State) : Prop where
  source : ∃ before, r.source = before ++ s.pending ∧ before.size = s.pos
  pos : r.pos = s.pos
  short : r.source.size < Word.size32

end Reader

def Step.move (r : Reader) : Step → Move
  | .wait => .wait r
  | .failed e => .failed e
  | .emit e next => .emit e next.pos next.raw

namespace Reader
open State

section Constructs
variable {final : Bool} {r : Reader} {s : State}

theorem showsRest (shows : r.Shows s) : Text.dropBytes? r.pos r.source = some s.pending := by
  obtain ⟨before, source, place⟩ := shows.source
  rw [source, shows.pos, ← place, Text.dropBytesAppend]

theorem showsSize (shows : r.Shows s) : r.source.size = s.pos + s.pending.size := by
  obtain ⟨before, source, place⟩ := shows.source
  rw [source, Text.sizeAppend, place]

theorem spanExact (shows : r.Shows s) {taken rest : Text} (cut : s.pending = taken ++ rest) :
    Span.inWords? r.pos (r.pos + taken.size) = some (s.spanOf taken) := by
  have size := showsSize shows
  have short := shows.short
  rw [cut, Text.sizeAppend] at size
  rw [shows.pos]
  exact Span.inWordsExact (Nat.le_add_right _ _) (by omega)

theorem emitTextExact (shows : r.Shows s) {taken rest : Text} (cut : s.pending = taken ++ rest) :
    r.emitText? (r.pos + taken.size) = some ((s.emitText taken rest).move r) := by
  rw [emitText?, spanExact shows cut, shows.pos]
  rfl

theorem emitCommentExact (shows : r.Shows s) {taken rest : Text} (cut : s.pending = taken ++ rest) :
    r.emitComment? (r.pos + taken.size) = some ((s.emitComment taken rest).move r) := by
  rw [emitComment?, spanExact shows cut, shows.pos]
  rfl

theorem failingExact (shows : r.Shows s) (fault : Fault) :
    r.failing? fault = some (.failed ⟨fault, s.spanOf s.pending⟩) := by
  rw [failing?, showsSize shows, ← shows.pos, spanExact shows (List.append_nil _).symm]
  rfl

theorem awaitingExact (shows : r.Shows s) (awaited : Awaited) :
    r.awaiting? final awaited = some ((s.awaiting final awaited).move r) := by
  unfold awaiting? awaiting
  cases final with
  | true => exact failingExact shows _
  | false => rfl

theorem declarationUntilExact (shows : r.Shows s) {opening rest : Text}
    (cut : s.pending = opening ++ rest) (terminator : Text) :
    r.declarationUntil? final s.pending opening.size terminator =
      some ((s.declarationUntil final opening.length terminator).move r) := by
  unfold declarationUntil? declarationUntil Text.find?
  rw [cut, Text.dropBytesAppend, List.drop_left, List.take_left, Option.bind_eq_bind, Option.bind_some]
  cases here : Text.breakOn? terminator rest with
  | none => exact awaitingExact shows _
  | some parts =>
    obtain ⟨before, found⟩ := parts
    have whole : s.pending = opening ++ before ++ terminator ++ found.drop terminator.length := by
      rw [cut, breakOnCut here]
      simp
    have size : Text.size (opening ++ before ++ terminator) =
        opening.size + before.size + terminator.size := by simp only [Text.sizeAppend]
    have emits := emitCommentExact shows whole
    rw [size, ← Nat.add_assoc, ← Nat.add_assoc] at emits
    exact emits

theorem declarationExact (shows : r.Shows s) {c : Char} {rest : Text}
    (here : s.pending = '<' :: c :: rest) (known : c = '!' ∨ c = '?') :
    r.declaration? final = some ((s.declaration final).move r) := by
  unfold declaration? declaration
  rw [showsRest shows, Option.bind_eq_bind, Option.bind_some]
  split
  · rename_i comment
    obtain ⟨more, whole⟩ := List.isPrefixOf_iff_prefix.mp comment
    exact declarationUntilExact shows whole.symm "-->"
  · split
    · rfl
    · have whole : s.pending = ['<', c] ++ rest := here
      rcases known with rfl | rfl <;> exact declarationUntilExact shows whole ">"

theorem angleBehindSlash (rest : Text) : Text.breakOn? ['>'] ('<' :: '/' :: rest) =
    (Text.breakOn? ['>'] rest).map fun found => ('<' :: '/' :: found.1, found.2) := by
  simp [Text.breakOn?, Function.comp_def]

theorem endTagExact (shows : r.Shows s) {rest : Text} (here : s.pending = '<' :: '/' :: rest) :
    r.endTag? final = some ((s.endTag final).move r) := by
  have search := angleBehindSlash rest
  rw [← here] at search
  unfold endTag? endTag Text.find?
  rw [showsRest shows, Option.bind_eq_bind, Option.bind_some]
  cases found : Text.breakOn? ['>'] rest with
  | none =>
    rw [found] at search
    simp only [search]
    exact awaitingExact shows _
  | some parts =>
    obtain ⟨inner, behind⟩ := parts
    rw [found] at search
    have whole : s.pending = ['<', '/'] ++ inner ++ ['>'] ++ behind.drop 1 := by
      rw [here, breakOnCut found]
      simp
    have size : Text.size (['<', '/'] ++ inner ++ ['>']) = 2 + inner.size + 1 := by
      rw [Text.sizeAppend, Text.sizeAppend]
      rfl
    have angle : Text.size ('<' :: '/' :: inner) = 2 + inner.size := Text.sizeAppend ['<', '/'] inner
    have cut : Text.slice? s.pending 2 (2 + inner.size) = some inner := by
      rw [whole, List.append_assoc]
      exact Text.sliceMiddle ['<', '/'] inner _
    simp only [search, Option.map_some, angle, cut, Option.bind_some, List.drop_succ_cons,
      List.drop_zero, Nat.add_assoc r.pos]
    split
    · have name := Text.sliceFront (inner.takeWhile fun c => !(Text.isBlank c || c = '/'))
        (inner.dropWhile fun c => !(Text.isBlank c || c = '/'))
      rw [List.takeWhile_append_dropWhile] at name
      rw [Text.findWhereOr, name, ← size, Option.bind_some, spanExact shows whole, shows.pos]
      rfl
    · rw [← size]
      exact emitCommentExact shows whole

theorem nameCuts (shows : r.Shows s) {name after : Text} (here : s.pending = '<' :: (name ++ after)) :
    Text.dropBytes? 1 s.pending = some (name ++ after) ∧
      Text.slice? s.pending 1 (1 + name.size) = some name ∧
      Text.dropBytes? (1 + name.size) s.pending = some after ∧
      Span.inWords? (r.pos + 1) (r.pos + (1 + name.size)) =
        some ⟨s.pos + 1, s.pos + 1 + name.size⟩ := by
  have size := showsSize shows
  have short := shows.short
  have one : Char.utf8Size '<' = 1 := rfl
  rw [here, Text.sizeCons, Text.sizeAppend] at size
  refine ⟨?_, ?_, ?_, ?_⟩
  · rw [here]
    exact Text.dropBytesAppend ['<'] _
  · rw [here]
    exact Text.sliceMiddle ['<'] name after
  · rw [here]
    exact Text.dropBytesAppend ('<' :: name) after
  · rw [shows.pos, Span.inWordsExact (by omega) (by omega), Nat.add_assoc]

theorem insideCuts (shows : r.Shows s) {name inside behind : Text}
    (whole : s.pending = '<' :: name ++ inside ++ behind) :
    Text.slice? s.pending (1 + name.size) (1 + name.size + inside.size) = some inside ∧
      Attributes.attributesAt? inside ((r.pos + (1 + name.size)) % Word.size32) =
        some (Attributes.read (Token.scan (s.pos + 1 + name.size) inside)) ∧
      Span.inWords? r.pos (r.pos + (1 + name.size + inside.size)) =
        some (s.spanOf ('<' :: name ++ inside)) := by
  have size := showsSize shows
  have short := shows.short
  have one : Char.utf8Size '<' = 1 := rfl
  rw [whole, Text.sizeAppend, Text.sizeAppend, Text.sizeCons] at size
  refine ⟨?_, ?_, ?_⟩
  · rw [whole]
    exact Text.sliceMiddle ('<' :: name) inside behind
  · rw [shows.pos, Nat.mod_eq_of_lt (by omega), ← Nat.add_assoc]
    exact Attributes.attributesExact (by omega)
  · have span := spanExact shows whole
    rwa [Text.sizeAppend] at span

theorem startTagExact (shows : r.Shows s) {rest : Text} (here : s.pending = '<' :: rest) :
    r.startTag? final = some ((s.startTag final).move r) := by
  have cut := List.takeWhile_append_dropWhile (p := fun c => !endsTagName c) (l := rest)
  have behind : s.pending.drop 1 = rest := by rw [here]; rfl
  unfold startTag? startTag
  simp only [showsRest shows, Option.bind_eq_bind, Option.bind_some, behind]
  generalize named : rest.takeWhile (fun c => !endsTagName c) = name at cut ⊢
  generalize left : rest.dropWhile (fun c => !endsTagName c) = after at cut ⊢
  rw [← cut] at here
  obtain ⟨dropped, sliced, interior, span⟩ := nameCuts shows here
  rw [cut] at dropped
  simp only [dropped, Option.bind_some, Text.findWhereExact, named, left]
  by_cases nothing : after.isEmpty = true
  · simp only [if_pos nothing]
    exact awaitingExact shows _
  · simp only [if_neg nothing, sliced, interior, span, Option.bind_some]
    split
    · rfl
    · have ends := @tagEndPlaceExact none 0 (by simp) after
      cases found : tagEnd? none after with
      | none =>
        rw [found] at ends
        simp only [Option.map_eq_none_iff.mp ends]
        exact awaitingExact shows _
      | some parts =>
        obtain ⟨inside, behind⟩ := parts
        rw [found] at ends
        obtain ⟨angle, place, stop⟩ := Option.map_eq_some_iff.mp ends
        have stop : angle + 1 = Text.size inside := stop.trans (Nat.zero_add _)
        obtain rfl := tagEndSplits found
        obtain ⟨sliced, read, span⟩ := insideCuts shows
          (here.trans (List.append_assoc ('<' :: name) inside behind).symm)
        simp only [place, Nat.add_assoc _ angle 1, stop, sliced, read, Option.bind_some]
        cases Attributes.read (Token.scan (s.pos + 1 + Text.size name) inside) with
        | error e => rfl
        | ok made =>
          have taken : r.pos + (1 + Text.size name + Text.size inside) =
              s.pos + Text.size ('<' :: name ++ inside) := by
            rw [shows.pos, Text.sizeAppend]
            rfl
          simp only [span, Option.bind_some]
          rw [taken]
          rfl

theorem nextByte (shows : r.Shows s) {rest : Text} (here : s.pending = '<' :: rest) :
    (encode r.source)[r.pos + 1]? = (encode rest)[0]? := by
  obtain ⟨before, source, place⟩ := shows.source
  have one : Text.size (before ++ ['<']) = before.size + 1 := Text.sizeAppend before ['<']
  have behind := Utf8.byteBehind (before ++ ['<']) rest 0
  rw [List.append_assoc, one, place, ← shows.pos] at behind
  rw [source, here]
  exact behind

theorem alphaOnlyAscii : OnlyAscii Char.isAlpha := by
  intro c foreign
  refine Bool.eq_false_iff.mpr fun letter => foreign ?_
  rcases Bool.or_eq_true_iff.mp letter with upper | lower
  · have most : c.val ≤ 'Z'.val := (of_decide_eq_true upper).2
    exact Nat.lt_of_le_of_lt (UInt32.le_iff_toNat_le.mp most) (by decide)
  · have most : c.val ≤ 'z'.val := of_decide_eq_true (Bool.and_eq_true_iff.mp lower).2
    exact Nat.lt_of_le_of_lt (UInt32.le_iff_toNat_le.mp most) (by decide)

theorem sameOnlyAscii {d : Char} (ascii : IsAscii d) : OnlyAscii (· = d) := fun _ foreign =>
  decide_eq_false (foreignOther foreign ascii)

theorem constructExact (shows : r.Shows s) {rest : Text} (here : s.pending = '<' :: rest) :
    r.construct? final = some ((s.construct final rest).move r) := by
  have alone : r.emitText? (r.pos + 1) = some ((s.emitText ['<'] rest).move r) :=
    emitTextExact shows (show s.pending = ['<'] ++ rest from here)
  unfold construct? construct
  rw [nextByte shows here]
  cases rest with
  | nil =>
    cases final with
    | true => exact alone
    | false => rfl
  | cons c more =>
    obtain ⟨b, first, same⟩ := Utf8.firstByte c more
    have equal {d : Char} (ascii : IsAscii d) : asciiOf b = d ↔ c = d := by
      have alike := same _ (sameOnlyAscii ascii)
      simpa only [decide_eq_decide] using alike
    simp only [first, same _ alphaOnlyAscii, equal (d := '!') (by decide),
      equal (d := '?') (by decide), equal (d := '/') (by decide)]
    split
    · rename_i known
      exact declarationExact shows here known
    · split
      · rename_i slash
        exact endTagExact shows (slash ▸ here)
      · split
        · exact startTagExact shows here
        · exact alone

theorem breakOnWhile (needle : Char) (t : Text) : Text.breakOn? [needle] t =
    if (t.dropWhile (· ≠ needle)).isEmpty then none
    else some (t.takeWhile (· ≠ needle), t.dropWhile (· ≠ needle)) := by
  induction t with
  | nil => rfl
  | cons c rest ih =>
    by_cases same : c = needle
    · simp [Text.breakOn?, same]
    · have other : needle ≠ c := fun back => same back.symm
      rw [Text.breakOn?, ih, List.dropWhile_cons_of_pos (by simpa using same),
        List.takeWhile_cons_of_pos (by simpa using same), if_neg (by simpa using other)]
      split <;> rfl

theorem plainExact (shows : r.Shows s) : r.plain? final = some ((s.plain final).move r) := by
  unfold plain? plain Text.find?
  rw [showsRest shows, Option.bind_eq_bind, Option.bind_some]
  cases here : s.pending with
  | nil => rfl
  | cons c rest =>
    by_cases angle : c = '<'
    · subst angle
      have first : Text.breakOn? ['<'] ('<' :: rest) = some ([], '<' :: rest) :=
        breakOnFirst List.not_mem_nil
      rw [first]
      exact constructExact shows here
    · have cut := List.takeWhile_append_dropWhile (p := (· ≠ '<')) (l := c :: rest)
      have positive : Text.size ((c :: rest).takeWhile (· ≠ '<')) ≠ 0 := by
        rw [List.takeWhile_cons_of_pos (by simpa using angle)]
        exact Nat.ne_of_gt (Text.sizePositive (List.cons_ne_nil c _))
      have emits := emitTextExact shows (here.trans cut.symm)
      have size := showsSize shows
      rw [here, ← cut, Text.sizeAppend] at size
      simp only [breakOnWhile, List.isEmpty_cons, Bool.false_eq_true, if_false, if_neg angle]
      generalize (c :: rest).takeWhile (· ≠ '<') = taken at cut positive emits size ⊢
      generalize (c :: rest).dropWhile (· ≠ '<') = left at cut emits size ⊢
      by_cases whole : left = []
      · subst whole
        have stop : r.source.size = r.pos + Text.size taken := by rw [size, shows.pos]; rfl
        rw [← stop] at emits
        exact emits
      · simp only [if_neg (mt List.isEmpty_iff.mp whole), Option.map_some]
        exact emits

end Constructs

end Reader
end ComponentFile.Markup
