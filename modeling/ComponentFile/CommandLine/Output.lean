import ComponentFile.Loader.Component
import ComponentFile.CommandLine.Arguments

/-! Sections and modules as the command line prints them: as text for people, or as one indented
JSON document. -/
namespace ComponentFile.CommandLine
open Json (Value)

def optional {α : Type} (f : α → Value) : Option α → Value
  | some a => f a
  | none => .null

def lineEnd (t : Text) : Text := if t.getLast? = some '\n' then [] else ['\n']

def sectionText (file : Path) (s : Section) : Text :=
  file.text ++ ':' :: Text.ofNat s.offset ++ " <" ++ s.tag ++
    s.attributes.flatMap (fun (name, value) => ' ' :: name ++ '=' :: Quoted.text value) ++ ">\n" ++
    s.text ++ lineEnd s.text ++ "\n"

def sectionValue (s : Section) : Value :=
  .record [("tag", .string s.tag), ("text", .string s.text),
    ("attributes", .object (s.attributes.map fun (name, value) => (name, .string value))),
    ("offset", .int s.offset),
    ("content_span", .record [("start", .int s.contentSpan.start), ("end", .int s.contentSpan.stop)])]

def sectionsOutput (format : OutputFormat) (file : Path) (sections : List Section) : Text :=
  match format with
  | .human => sections.flatMap (sectionText file)
  | .json => (Value.array (sections.map sectionValue)).renderPretty

def moduleText (m : ComponentModule) : Text :=
  match m.map with
  | some map => m.code ++ lineEnd m.code ++ "//# sourceMappingURL=" ++ map.dataUrl ++ "\n"
  | none => m.code

def mapValue (m : SourceMap) : Value :=
  match m.toValue with
  | .object members => .object (members.foldl (fun ms (key, v) => Json.insertMember key v ms) [])
  | v => v

def styleValue (s : Style) : Value :=
  .record [("lang", optional .string s.lang), ("scoped", .bool s.isScoped), ("text", .string s.text)]

def moduleValue (m : ComponentModule) : Value :=
  .record [("path", .string m.path.text), ("code", .string m.code),
    ("template", optional .string m.template), ("styles", .array (m.styles.map styleValue)),
    ("map", optional mapValue m.map)]

def moduleOutput (format : OutputFormat) (m : ComponentModule) : Text :=
  match format with
  | .human => moduleText m
  | .json => (moduleValue m).renderPretty

end ComponentFile.CommandLine
