import ComponentFile.Script.Lexeme
import ComponentFile.Mapping.Draft
import ComponentFile.Word

/-! Dense source maps for script that is passed through: one mapping for each lexeme, named by its
text, from its place in the script to the same column of the component, some lines further down.
The stream of extents may come from any reader; what does not fit the script is left out. -/
namespace ComponentFile.TokenMap

structure InvalidOffset where
  offset : Int
  deriving DecidableEq, Repr

def InvalidOffset.message (e : InvalidOffset) : Text :=
  "source map offset must be a positive line number, got " ++ Text.ofInt e.offset

def positionOf (lines : Lines) (content : Text) (offset : Nat) : Position :=
  let line := lines.lineAt offset
  let start := (lines.start? line).getD 0
  ⟨line, ((Text.slice? content start offset).map Text.units).getD 0⟩

/-- Follows the stream. `stop` is where the lexeme before ended; one that begins earlier ends the
stream, as an empty one at the end of the script does. -/
def mapLexemes (content : Text) (lines : Lines) (size shift source : Nat) (stop : Nat)
    (b : MapDraft) : List Span → MapDraft
  | [] => b
  | s :: rest =>
      if s.start = s.stop then
        if size ≤ s.stop then b else mapLexemes content lines size shift source stop b rest
      else if s.start < stop then b
      else
        match s.slice? content with
        | none => mapLexemes content lines size shift source s.stop b rest
        | some name =>
            let generated := positionOf lines content s.start
            let origin : Position :=
              ⟨(generated.line + shift) % Word.size32, generated.column⟩
            mapLexemes content lines size shift source s.stop
              (b.record generated origin source (some name)) rest

def ofStream (content file : Text) (offset : Int) (stream : List Span) :
    Except InvalidOffset SourceMap :=
  if Word.fits32 (offset - 1) then
    let (b, source) := (MapDraft.empty.withFile file).internSource file
    .ok (mapLexemes content (Lines.ofText content) (Text.size content) (offset - 1).toNat source 0 b
      stream).finish
  else .error ⟨offset⟩

def ofScript (content file : Text) (offset : Int) : Except InvalidOffset SourceMap :=
  ofStream content file offset (Script.lexemes content)

end ComponentFile.TokenMap
