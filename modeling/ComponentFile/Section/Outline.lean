import ComponentFile.Section.Basic
import ComponentFile.Markup.Stream
import ComponentFile.Text.Lines
import ComponentFile.Text.Utf8

/-! Extraction of sections from the events of a document. Each requested tag has a depth of its
own. A section begins where its depth leaves zero and is complete where it comes back, so that
sections stand in the order of their end tags. -/
namespace ComponentFile
open Markup (Event StartTag ParseError)

structure OpenRegion where
  depth : Nat
  attributes : Table Text Text
  contentStart : Nat
  openSpan : Span
  deriving DecidableEq, Repr

structure Outline where
  opened : Table Text OpenRegion
  sections : List Section
  deriving DecidableEq, Repr

namespace Outline

def empty : Outline := ⟨[], []⟩

def distinct (attributes : List Markup.Attribute) : Table Text Text :=
  attributes.foldl (fun t a => t.putNew a.name a.value) []

def record (source : Text) (o : Outline) (tag : Text) (attributes : Table Text Text)
    (content : Span) : Outline :=
  let offset :=
    if attributes.contains "src" then 0 else (Lines.ofText source).lineAt content.start + 1
  { o with sections :=
      o.sections ++ [⟨tag, (content.slice? source).getD [], attributes, offset, content⟩] }

def enter (source : Text) (o : Outline) (tag : StartTag) : Outline :=
  match o.opened.get? tag.name with
  | some s =>
      if tag.selfClosing then o
      else { o with opened := o.opened.put tag.name { s with depth := s.depth + 1 } }
  | none =>
      let attributes := distinct tag.attributes
      if tag.selfClosing then o.record source tag.name attributes (Span.empty tag.span.stop)
      else { o with opened := o.opened.put tag.name ⟨1, attributes, tag.span.stop, tag.span⟩ }

def leave (source : Text) (o : Outline) (name : Text) (span : Span) : Outline :=
  match o.opened.get? name with
  | none => o
  | some s =>
      if 1 < s.depth then
        { o with opened := o.opened.put name { s with depth := s.depth - 1 } }
      else
        { o with opened := o.opened.erase name }.record source name s.attributes
          ⟨s.contentStart, span.start⟩

def step (tags : List Text) (source : Text) (o : Outline) : Event → Outline
  | .opened tag => if tags.contains tag.name then o.enter source tag else o
  | .closed name span => o.leave source name span
  | .text _ => o
  | .comment _ => o

def run (tags : List Text) (source : Text) (events : List Event) : Outline :=
  events.foldl (step tags source) empty

def firstOpen? : Table Text OpenRegion → Option (Text × OpenRegion)
  | [] => none
  | (tag, s) :: rest =>
      match firstOpen? rest with
      | some (other, t) =>
          if t.openSpan.start < s.openSpan.start then some (other, t) else some (tag, s)
      | none => some (tag, s)

def result (o : Outline) : Except ParseError (List Section) :=
  match firstOpen? o.opened with
  | some (tag, s) => .error ⟨.unclosedTag tag, s.openSpan⟩
  | none => .ok o.sections

end Outline

def isTagName (name : Text) : Bool :=
  (name.head?.map Char.isAlpha).getD false &&
    !name.any fun c => Text.isBlank c || c = '<' || c = '>' || c = '/' || c = '"' || c = '\'' || c = '='

def requestedTags (tags : List Text) : Except SectionError (List Text) :=
  if tags.isEmpty then .error .emptyTagList
  else tags.mapM fun tag => if isTagName tag then .ok (Text.lower tag) else .error (.invalidTagName tag)

def sectionsOf (source : Text) (tags : List Text) : Except SectionError (List Section) := do
  let tags ← requestedTags tags
  let events ← (Markup.events source).mapError .parse
  ((Outline.run tags source events).result).mapError .parse

def sectionsOfBytes (source : Utf8.Bytes) (tags : List Text) : Except SectionError (List Section) := do
  let _ ← requestedTags tags
  match Utf8.decode source with
  | .ok text => sectionsOf text tags
  | .error n => .error (.invalidUtf8 n)

end ComponentFile
