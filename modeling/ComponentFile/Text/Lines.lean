import ComponentFile.Text.Basic

/-! The line starts of a text. A line break is a line feed, a carriage return with its line feed,
or a lone carriage return, and belongs to the line that it ends. -/
namespace ComponentFile

/-- Lines and columns count from zero. -/
structure Position where
  line : Nat
  column : Nat
  deriving DecidableEq, Repr

namespace Position

def before (a b : Position) : Bool :=
  a.line < b.line || (a.line == b.line && a.column < b.column)

def atMost (a b : Position) : Bool :=
  a.line < b.line || (a.line == b.line && a.column ≤ b.column)

end Position

inductive OffsetError where
  | negative (offset : Int)
  | outOfBounds (offset : Int) (size : Nat)
  deriving DecidableEq, Repr

def OffsetError.message : OffsetError → Text
  | .negative i => "byte offset must be non-negative, got " ++ Text.ofInt i
  | .outOfBounds i size =>
      "byte offset " ++ Text.ofInt i ++ " is past the end of the text (" ++ Text.ofNat size ++ " bytes)"

structure Lines where
  starts : List Nat
  size : Nat
  deriving DecidableEq, Repr

namespace Lines

def startsFrom (pos : Nat) : Text → List Nat
  | [] => []
  | '\r' :: '\n' :: rest => (pos + 2) :: startsFrom (pos + 2) rest
  | c :: rest =>
      if c = '\n' ∨ c = '\r' then (pos + 1) :: startsFrom (pos + 1) rest
      else startsFrom (pos + c.utf8Size) rest

def ofText (t : Text) : Lines := ⟨0 :: startsFrom 0 t, t.size⟩

def count (l : Lines) : Nat := l.starts.length

def breaks (l : Lines) : Nat := l.count - 1

def isEmpty (l : Lines) : Bool := l.size == 0

def lineAt (l : Lines) (offset : Nat) : Nat := l.starts.countP (· ≤ offset) - 1

def lineWithin (l : Lines) (offset : Int) : Except OffsetError Nat :=
  if offset < 0 then .error (.negative offset)
  else if (l.size : Int) < offset then .error (.outOfBounds offset l.size)
  else .ok (l.lineAt offset.toNat)

def start? (l : Lines) (line : Nat) : Option Nat := l.starts[line]?

def position? (l : Lines) (offset : Nat) : Option Position :=
  if offset ≤ l.size then
    (l.start? (l.lineAt offset)).map fun start => ⟨l.lineAt offset, offset - start⟩
  else none

/-- The column is taken as it is: it may reach past the line. -/
def offset? (l : Lines) (p : Position) : Option Nat := (l.start? p.line).map (· + p.column)

def text? (l : Lines) (line : Nat) (t : Text) : Option Text := do
  let start ← l.start? line
  let slice ← Text.slice? t start ((l.start? (line + 1)).getD t.size)
  some (Text.trimEnd (fun c => c = '\n' || c = '\r') slice)

end Lines
end ComponentFile
