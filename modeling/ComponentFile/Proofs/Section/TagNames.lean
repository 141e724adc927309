import Mathlib.Data.List.TakeWhile
import ComponentFile.Section.Outline
import ComponentFile.Proofs.Markup.Tokens
import ComponentFile.Proofs.Markup.Trace

/-! Names that may be requested, and tags that hold nothing but such a name. The check of a requested
name and the reader of tags look at characters on their own; a checked name is read back whole. -/
namespace ComponentFile
open Markup (Event State Token rawElements)
open Markup.State

theorem nameCharacter (c : Char) :
    (Text.isBlank c || c = '<' || c = '>' || c = '/' || c = '"' || c = '\'' || c = '=') =
      (endsTagName c || spoilsTagName c) := by
  unfold endsTagName spoilsTagName
  grind

structure NameShape (name : Text) : Prop where
  letter : ∃ c rest, name = c :: rest ∧ c.isAlpha = true
  whole : ∀ c ∈ name, endsTagName c = false
  sound : ∀ c ∈ name, spoilsTagName c = false

theorem tagNameShape {name : Text} : isTagName name = true ↔ NameShape name := by
  unfold isTagName
  simp only [nameCharacter, Bool.and_eq_true, Bool.not_eq_true', List.any_eq_false,
    Bool.not_eq_true, Bool.or_eq_false_iff]
  constructor
  · rintro ⟨letter, clean⟩
    refine ⟨?_, fun c member => (clean c member).1, fun c member => (clean c member).2⟩
    cases name with
    | nil => contradiction
    | cons c rest => exact ⟨c, rest, rfl, letter⟩
  · rintro ⟨⟨c, rest, rfl, letter⟩, whole, sound⟩
    exact ⟨letter, fun d member => ⟨whole d member, sound d member⟩⟩

section Requested
variable {tags requested : List Text}

theorem namesRead (named : ∀ tag ∈ tags, isTagName tag = true) :
    (tags.mapM fun tag => if isTagName tag then Except.ok (Text.lower tag)
      else .error (SectionError.invalidTagName tag)) = .ok (tags.map Text.lower) := by
  induction tags with
  | nil => rfl
  | cons tag rest ih =>
    rw [List.mapM_cons, if_pos (named tag List.mem_cons_self),
      ih fun other member => named other (List.mem_cons_of_mem tag member)]
    rfl

theorem namesNamed (read : (tags.mapM fun tag => if isTagName tag then Except.ok (Text.lower tag)
      else .error (SectionError.invalidTagName tag)) = .ok requested) :
    ∀ tag ∈ tags, isTagName tag = true := by
  induction tags generalizing requested with
  | nil => simp
  | cons tag rest ih =>
    rw [List.mapM_cons] at read
    by_cases named : isTagName tag = true
    · rw [if_pos named] at read
      cases onward : rest.mapM fun tag => if isTagName tag then Except.ok (Text.lower tag)
          else .error (SectionError.invalidTagName tag) with
      | error e => rw [onward] at read; contradiction
      | ok more => exact List.forall_mem_cons.mpr ⟨named, ih onward⟩
    · rw [if_neg named] at read
      contradiction

theorem requestedAll : requestedTags tags = .ok requested ↔
    tags ≠ [] ∧ (∀ tag ∈ tags, isTagName tag = true) ∧ requested = tags.map Text.lower := by
  unfold requestedTags
  split
  · rename_i none
    simp [List.isEmpty_iff.mp none]
  · rename_i some
    have some : tags ≠ [] := by simpa using some
    constructor
    · intro read
      have named := namesNamed read
      rw [namesRead named] at read
      cases read
      exact ⟨some, named, rfl⟩
    · rintro ⟨_, named, rfl⟩
      exact namesRead named

end Requested

theorem requestedOne {tag : Text} {requested : List Text} :
    requestedTags [tag] = .ok requested ↔ isTagName tag = true ∧ requested = [Text.lower tag] := by
  rw [requestedAll]
  simp

def bareTag (name : Text) : Text := '<' :: name ++ ['>']

def bareEndTag (name : Text) : Text := '<' :: '/' :: name ++ ['>']

def bareTagEvent (name : Text) (pos : Nat) : Event :=
  .opened ⟨Text.lower name, [], ⟨pos, pos + (bareTag name).size⟩, false⟩

def bareEndTagEvent (name : Text) (pos : Nat) : Event :=
  .closed (Text.lower name) ⟨pos, pos + (bareEndTag name).size⟩

section Read
variable {final : Bool} {name rest : Text} {s : State}

theorem angleScan (pos : Nat) :
    Markup.Attributes.read (Token.scan pos ['>']) = .ok ([], false) := by
  have scanned : Token.scan pos ['>'] = [⟨.rightAngle, ⟨pos, pos + Text.size ['>']⟩, ['>']⟩] :=
    Token.scansScan (.token (by decide) rfl (.done _))
  rw [scanned]
  exact Markup.Attributes.readsRead (.skipped (.inr rfl) .done)

theorem bareTagStart (shape : NameShape name) (here : s.pending = bareTag name ++ rest) :
    s.startTag final = .emit (bareTagEvent name s.pos)
      { s.moved (bareTag name) rest with
        raw := if rawElements.contains (Text.lower name) then some (Text.lower name) else none } := by
  have inside : s.pending.drop 1 = name ++ '>' :: rest := by simp [here, bareTag]
  have whole : ∀ c ∈ name, (!endsTagName c) = true := by simpa using shape.whole
  have stops : (!endsTagName '>') = false := by decide
  have sound : name.any spoilsTagName = false := by simpa using shape.sound
  unfold startTag
  simp only [inside, List.takeWhile_append_of_pos whole, List.dropWhile_append_of_pos whole,
    List.takeWhile_cons, List.dropWhile_cons, stops, Bool.false_eq_true, if_false, List.append_nil,
    List.isEmpty_cons, sound, Markup.tagEnd?, if_true, angleScan]
  simp [bareTag, bareTagEvent, spanOf]

theorem bareTagStep (valid : isTagName name = true) (raw : s.raw = none)
    (here : s.pending = bareTag name ++ rest) :
    s.step final = .emit (bareTagEvent name s.pos)
      { s.moved (bareTag name) rest with
        raw := if rawElements.contains (Text.lower name) then some (Text.lower name) else none } := by
  have shape := tagNameShape.mp valid
  have start : s.startTag final = _ := bareTagStart shape here
  obtain ⟨c, more, rfl, letter⟩ := shape.letter
  have opens : s.pending = '<' :: c :: (more ++ '>' :: rest) := by simp [here, bareTag]
  have other (d : Char) (mark : d.isAlpha = false) : c ≠ d := by
    rintro rfl
    rw [letter] at mark
    contradiction
  simp only [step, raw, plain, opens, if_true, construct, other '!' (by decide),
    other '?' (by decide), other '/' (by decide), or_self, if_false, letter]
  exact start

theorem bareEndTagPlain (valid : isTagName name = true)
    (here : s.pending = bareEndTag name ++ rest) :
    s.plain final = .emit (bareEndTagEvent name s.pos) (s.moved (bareEndTag name) rest) := by
  have shape := tagNameShape.mp valid
  have opens : s.pending = '<' :: '/' :: (name ++ '>' :: rest) := by simp [here, bareEndTag]
  have absent : '>' ∉ '<' :: '/' :: name := by
    have clean : '>' ∉ name := fun member => absurd (shape.whole '>' member) (by decide)
    simpa using clean
  have first : Text.breakOn? ['>'] s.pending = some ('<' :: '/' :: name, '>' :: rest) := by
    rw [opens]
    exact breakOnFirst absent
  have whole : ∀ c ∈ name, (!(Text.isBlank c || c = '/')) = true := by
    intro c member
    have := shape.whole c member
    simp only [endsTagName, Bool.or_eq_false_iff] at this
    simp [this]
  have letter : (name.head?.map Char.isAlpha).getD false = true := by
    obtain ⟨c, more, rfl, letter⟩ := shape.letter
    exact letter
  have all : name.takeWhile (fun c => !(Text.isBlank c || c = '/')) = name :=
    List.takeWhile_eq_self_iff.mpr whole
  unfold plain
  simp only [opens, if_true, construct]
  rw [if_neg (by decide)]
  unfold endTag
  simp only [first, List.drop_succ_cons, List.drop_zero, letter, if_true, all]
  rfl

end Read

end ComponentFile
