import ComponentFile.Text.Lines

/-! Version 3 source maps: from positions of generated text to positions of the files it came
from. A map keeps its mappings in ascending order of generated position, and `covering?` finds the
last one that begins on the line at or before a position. -/
namespace ComponentFile

structure Mapping where
  generated : Position
  origin : Position
  source : Nat
  name : Option Nat
  deriving DecidableEq, Repr

structure SourceMap where
  file : Option Text
  sources : List Text
  names : List Text
  mappings : List Mapping
  deriving DecidableEq, Repr

namespace SourceMap

def version : Nat := 3

def sortMappings (ms : List Mapping) : List Mapping :=
  ms.mergeSort fun a b => a.generated.atMost b.generated

def covering? (m : SourceMap) (p : Position) : Option Mapping :=
  ((m.mappings.takeWhile (·.generated.atMost p)).getLast?).filter (·.generated.line == p.line)

structure Entry where
  source : Text
  origin : Position
  generated : Position
  name : Option Text
  deriving DecidableEq, Repr

def entry? (m : SourceMap) (mapping : Mapping) : Option Entry :=
  (m.sources[mapping.source]?).map fun source =>
    ⟨source, mapping.origin, mapping.generated, mapping.name.bind (m.names[·]?)⟩

end SourceMap
end ComponentFile
