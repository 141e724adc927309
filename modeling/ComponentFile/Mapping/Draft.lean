import ComponentFile.Mapping.Basic
import ComponentFile.Table
import ComponentFile.Word

/-! Building a source map. Sources and names are numbered in the order of first use, and the
mappings are put in order at the end; mappings at one generated position stay as they were added. -/
namespace ComponentFile

structure Lexicon where
  texts : List Text
  numbers : Table Text Nat
  deriving DecidableEq, Repr

namespace Lexicon

def empty : Lexicon := ⟨[], []⟩

def intern (l : Lexicon) (t : Text) : Lexicon × Nat :=
  match l.numbers.get? t with
  | some i => (l, i)
  | none =>
      let i := l.texts.length % Word.size32
      (⟨l.texts ++ [t], l.numbers.put t i⟩, i)

end Lexicon

structure MapDraft where
  file : Option Text
  sources : Lexicon
  names : Lexicon
  mappings : List Mapping
  deriving DecidableEq, Repr

namespace MapDraft

def empty : MapDraft := ⟨none, .empty, .empty, []⟩

def withFile (b : MapDraft) (file : Text) : MapDraft := { b with file := some file }

def internSource (b : MapDraft) (source : Text) : MapDraft × Nat :=
  let (sources, i) := b.sources.intern source
  ({ b with sources := sources }, i)

def internName (b : MapDraft) (name : Text) : MapDraft × Nat :=
  let (names, i) := b.names.intern name
  ({ b with names := names }, i)

def record (b : MapDraft) (generated origin : Position) (source : Nat)
    (name : Option Text) : MapDraft :=
  match name with
  | some t =>
      let (named, i) := b.internName t
      { named with mappings := named.mappings ++ [⟨generated, origin, source, some i⟩] }
  | none => { b with mappings := b.mappings ++ [⟨generated, origin, source, none⟩] }

def finish (b : MapDraft) : SourceMap :=
  ⟨b.file, b.sources.texts, b.names.texts, SourceMap.sortMappings b.mappings⟩

end MapDraft
end ComponentFile
