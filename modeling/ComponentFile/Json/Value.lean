import ComponentFile.Text.Basic
import ComponentFile.Table
import ComponentFile.Word
import ComponentFile.Double

/-! JSON twice: a `Node` is what a document says, with repeated keys, numerals as they were
written and strings that may stand for no text; a `Value` is what it means. In a value read from
a node the keys of an object are distinct and ascending, and a repeated key keeps its last value. -/
namespace ComponentFile.Json

structure Numeral where
  negative : Bool
  whole : Text
  fraction : Option Text
  exponent : Option (Bool × Text)
  deriving DecidableEq, Repr

inductive Node where
  | null
  | bool (b : Bool)
  | number (n : Numeral)
  | string (s : Option Text)
  | array (items : List Node)
  | object (members : List (Option Text × Node))
  deriving Repr

inductive Value where
  | null
  | bool (b : Bool)
  | int (i : Int)
  | real (n : Numeral)
  | string (s : Text)
  | array (items : List Value)
  | object (members : List (Text × Value))
  deriving Repr

def Value.record (members : List (String × Value)) : Value :=
  .object (members.map fun (key, v) => (key.toList, v))

namespace Numeral

def append (n : Nat) (c : Char) : Nat := n * 10 + (c.toNat - '0'.toNat)

def digitsValue (t : Text) : Nat := t.foldl append 0

def toInt? (n : Numeral) : Option Int :=
  if n.fraction.isSome ∨ n.exponent.isSome then none
  else if n.negative then
    if digitsValue n.whole = 0 then none else some (-(digitsValue n.whole : Int))
  else some (digitsValue n.whole)

def leading (n : Nat) : Text → Nat × Text
  | [] => (n, [])
  | c :: rest =>
      if append n c < Word.size64 then leading (append n c) rest else (n, c :: rest)

def exponentValue (n : Numeral) : Int :=
  match n.exponent with
  | none => 0
  | some (true, digits) => -(digitsValue digits : Int)
  | some (false, digits) => digitsValue digits

/-- The digits that count, as one number, and the power of ten that scales it. Digits that are left
over from the whole part still scale, those from the fraction do not. -/
def scaled (n : Numeral) : Nat × Int :=
  let fraction := n.fraction.getD []
  let (whole, dropped) := leading 0 n.whole
  let (digits, ignored) := leading whole fraction
  (digits, n.exponentValue + dropped.length - (fraction.length - ignored.length : Nat))

/-- Whether the number stays finite when it is computed as a double, from its digits and the power
of ten that scales them, both rounded before they are multiplied. -/
def isFinite (n : Numeral) : Bool :=
  let (digits, power) := n.scaled
  digits = 0 || power < 0 ||
    (power ≤ Double.largestPower &&
      Double.isFinite (Double.nearest digits * Double.powerOfTen power.toNat))

end Numeral

namespace Node

mutual

def depth : Node → Nat
  | .array items => depthItems items + 1
  | .object members => depthMembers members + 1
  | _ => 0

def depthItems : List Node → Nat
  | [] => 0
  | n :: rest => max n.depth (depthItems rest)

def depthMembers : List (Option Text × Node) → Nat
  | [] => 0
  | (_, n) :: rest => max n.depth (depthMembers rest)

end

end Node

def insertMember (key : Text) (v : Value) : List (Text × Value) → List (Text × Value)
  | [] => [(key, v)]
  | (k, w) :: rest =>
      if k = key then (key, v) :: rest
      else if Text.before key k then (key, v) :: (k, w) :: rest
      else (k, w) :: insertMember key v rest

namespace Node

def inWordRange (i : Int) : Bool := Word.fitsSigned64 i || (0 ≤ i && i < Word.size64)

mutual

def value? : Node → Option Value
  | .null => some .null
  | .bool b => some (.bool b)
  | .number n =>
      match n.toInt?.filter inWordRange with
      | some i => some (.int i)
      | none => if n.isFinite then some (.real n) else none
  | .string s => s.map .string
  | .array items => (valueItems? items).map .array
  | .object members => (valueMembers? members []).map .object

def valueItems? : List Node → Option (List Value)
  | [] => some []
  | n :: rest => do
      let v ← n.value?
      let vs ← valueItems? rest
      some (v :: vs)

def valueMembers? : List (Option Text × Node) → List (Text × Value) → Option (List (Text × Value))
  | [], done => some done
  | (key, n) :: rest, done => do
      let k ← key
      let v ← n.value?
      valueMembers? rest (insertMember k v done)

end

end Node
end ComponentFile.Json
