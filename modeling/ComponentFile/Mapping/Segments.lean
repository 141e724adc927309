import ComponentFile.Mapping.Basic
import ComponentFile.Mapping.Digits

/-! The text form of mappings. Semicolons end generated lines, commas part the segments of a
line, and every number is written as the difference from the one before it. The generated column
starts again on each line; the name only moves on mappings that have one. -/
namespace ComponentFile.Segments

structure Previous where
  line : Nat
  column : Nat
  source : Nat
  originLine : Nat
  originColumn : Nat
  name : Nat
  deriving DecidableEq, Repr

def Previous.start : Previous := ⟨0, 0, 0, 0, 0, 0⟩

def difference (a b : Nat) : Int := (a : Int) - b

def separator (first : Bool) (p : Previous) (m : Mapping) : Text × Nat :=
  if m.generated.line = p.line then (if first then [] else [','], p.column)
  else (List.replicate (m.generated.line - p.line) ';', 0)

def encodeFrom (first : Bool) (p : Previous) : List Mapping → Text
  | [] => []
  | m :: rest =>
      let (between, column) := separator first p m
      between ++
        Digits.encode (difference m.generated.column column) ++
        Digits.encode (difference m.source p.source) ++
        Digits.encode (difference m.origin.line p.originLine) ++
        Digits.encode (difference m.origin.column p.originColumn) ++
        (match m.name with
          | some n => Digits.encode (difference n p.name)
          | none => []) ++
        encodeFrom false
          ⟨m.generated.line, m.generated.column, m.source, m.origin.line, m.origin.column,
            m.name.getD p.name⟩ rest

def encode (ms : List Mapping) : Text := encodeFrom true .start ms

structure Totals where
  source : Int
  line : Int
  column : Int
  name : Int
  deriving DecidableEq, Repr

def Totals.zero : Totals := ⟨0, 0, 0, 0⟩

def accumulate (total delta : Int) (what : Text) : Except MapError Int :=
  if Word.fitsSigned64 (total + delta) then .ok (total + delta)
  else .error (.outOfRange what)

def index (total : Int) (what : Text) : Except MapError Nat :=
  if Word.fits32 total then .ok total.toNat else .error (.outOfRange what)

def reference (total : Int) (count : Nat) (what : Text) : Except MapError Nat := do
  let i ← index total what
  if i < count then .ok i else .error (.outOfRange what)

structure Limits where
  sources : Nat
  names : Nat
  deriving DecidableEq, Repr

/-- Reads one segment. One with a single field moves the column and maps nothing. -/
def segment (limits : Limits) (line : Nat) (column : Int) (t : Totals) (text : Text) :
    Except MapError (Option Mapping × Int × Totals) := do
  let fields ← Digits.decode text
  let column ← accumulate column (fields.headD 0) "generated column"
  match fields with
  | [_] => .ok (none, column, t)
  | _ :: s :: l :: c :: more =>
      if 1 < more.length then .error (.invalidSegment fields.length)
      else
        let source ← accumulate t.source s "source index"
        let originLine ← accumulate t.line l "original line"
        let originColumn ← accumulate t.column c "original column"
        let name ← match more with
          | n :: _ => accumulate t.name n "name index"
          | [] => .ok t.name
        let generatedColumn ← index column "generated column"
        let foundLine ← index originLine "original line"
        let foundColumn ← index originColumn "original column"
        let foundSource ← reference source limits.sources "source index"
        let foundName ← match more with
          | _ :: _ => (reference name limits.names "name index").map some
          | [] => .ok none
        .ok (some ⟨⟨line, generatedColumn⟩, ⟨foundLine, foundColumn⟩, foundSource, foundName⟩,
          column, ⟨source, originLine, originColumn, name⟩)
  | _ => .error (.invalidSegment fields.length)

def decodeLine (limits : Limits) (line : Nat) :
    Int → Totals → List Text → Except MapError (List Mapping × Totals)
  | _, t, [] => .ok ([], t)
  | column, t, [] :: rest => decodeLine limits line column t rest
  | column, t, text :: rest => do
      let (found, column, t) ← segment limits line column t text
      let (more, t) ← decodeLine limits line column t rest
      .ok (found.toList ++ more, t)

def decodeLines (limits : Limits) : Nat → Totals → List Text → Except MapError (List Mapping)
  | _, _, [] => .ok []
  | line, t, text :: rest => do
      let (found, t) ← decodeLine limits (line % Word.size32) 0 t (Text.splitAt ',' text)
      let more ← decodeLines limits (line + 1) t rest
      .ok (found ++ more)

def decode (limits : Limits) (text : Text) : Except MapError (List Mapping) :=
  decodeLines limits 0 .zero (Text.splitAt ';' text)

end ComponentFile.Segments
