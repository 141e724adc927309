import ComponentFile.Markup.Event
import ComponentFile.Text.Quoted
import ComponentFile.Table

/-! Sections: the outermost elements of a component file, with their text and where it begins. -/
namespace ComponentFile

/-- `offset` is the line, from one, on which the text begins, or zero when it is in another file. -/
structure Section where
  tag : Text
  text : Text
  attributes : Table Text Text
  offset : Nat
  contentSpan : Span
  deriving DecidableEq, Repr

namespace Section

def attribute? (s : Section) (name : Text) : Option Text := s.attributes.get? name

def lang? (s : Section) : Option Text := (s.attribute? "lang").filter (!·.isEmpty)

def src? (s : Section) : Option Text := s.attribute? "src"

def isExternal (s : Section) : Bool := s.attributes.contains "src"

end Section

def componentTags : List Text := ["template", "script", "style"]

inductive SectionError where
  | emptyTagList
  | invalidTagName (name : Text)
  | invalidUtf8 (validUpTo : Nat)
  | parse (e : Markup.ParseError)
  deriving DecidableEq, Repr

def SectionError.message : SectionError → Text
  | .emptyTagList => "at least one tag name must be requested"
  | .invalidTagName name => "invalid requested tag name: " ++ Quoted.text name
  | .invalidUtf8 n =>
      "component source is not valid UTF-8 (valid up to byte " ++ Text.ofNat n ++ ")"
  | .parse e => e.message

end ComponentFile
