import ComponentFile.Mapping.Segments
import ComponentFile.Json.Reader
import ComponentFile.Json.Record
import ComponentFile.Json.Printer

/-! Source maps as JSON documents and as data URLs. Reading what was written gives the map back. -/
namespace ComponentFile.SourceMap
open Json (Node Value)

def toValue (m : SourceMap) : Value :=
  .record <|
    [("version", .int version)] ++
    (match m.file with
      | some f => [("file", .string f)]
      | none => []) ++
    [("sources", .array (m.sources.map .string)),
      ("names", .array (m.names.map .string)),
      ("mappings", .string (Segments.encode m.mappings))]

def toJson (m : SourceMap) : Text := m.toValue.render

def dataUrl (m : SourceMap) : Text :=
  "data:application/json;charset=utf-8;base64," ++ Base64.encode (Utf8.encode m.toJson)

structure Document where
  version : Nat
  file : Option Text
  sources : List Text
  names : List Text
  mappings : Text
  deriving DecidableEq, Repr

def Document.ofNode? (n : Node) : Option Document :=
  match n.fields? ["version", "file", "sources", "names", "mappings"] with
  | some [some version, file, sources, names, some mappings] => do
      let version ← version.word?
      let file ← (file.getD .null).optional? Node.text?
      let sources ← (sources.getD (.array [])).list? Node.text?
      let names ← (names.getD (.array [])).list? Node.text?
      let mappings ← mappings.text?
      some ⟨version, file, sources, names, mappings⟩
  | _ => none

def ofDocument (r : Document) : Except MapError SourceMap := do
  if r.version ≠ version then .error (.unsupportedVersion r.version)
  let mappings ← Segments.decode ⟨r.sources.length, r.names.length⟩ r.mappings
  .ok ⟨r.file, r.sources, r.names, sortMappings mappings⟩

def ofJson (t : Text) : Except MapError SourceMap :=
  match (Node.ofText? t).bind Document.ofNode? with
  | some r => ofDocument r
  | none => .error .json

end ComponentFile.SourceMap
