import ComponentFile.Json.Value
import ComponentFile.Word

/-! Reading records of known fields. An object gives fields by name: others are ignored and a
known one may not be repeated. An array gives them by place: the last ones may be left out. -/
namespace ComponentFile.Json.Node

def fields? (names : List Text) : Node → Option (List (Option Node))
  | .array items =>
      if items.length ≤ names.length then
        some (items.map some ++ List.replicate (names.length - items.length) none)
      else none
  | .object members => do
      let known ← members.mapM fun (key, n) => key.map fun k => (k, n)
      names.mapM fun name =>
        match known.filter (fun m => m.1 == name) with
        | [] => some none
        | [m] => some (some m.2)
        | _ => none
  | _ => none

def text? : Node → Option Text
  | .string s => s
  | _ => none

def bool? : Node → Option Bool
  | .bool b => some b
  | _ => none

def word? : Node → Option Nat
  | .number n => n.toInt?.bind fun i => if Word.fits32 i then some i.toNat else none
  | _ => none

def list? {α : Type} (item? : Node → Option α) : Node → Option (List α)
  | .array items => items.mapM item?
  | _ => none

/-- Members in the order of their first keys, each with the last value of its key. -/
def table? {α : Type} (item? : Node → Option α) : Node → Option (Table Text α)
  | .object members => do
      let entries ← members.mapM fun (key, n) => do
        let k ← key
        let v ← item? n
        some (k, v)
      some (entries.foldl (fun t (k, v) => t.put k v) [])
  | _ => none

def optional? {α : Type} (item? : Node → Option α) : Node → Option (Option α)
  | .null => some none
  | n => (item? n).map some

/-- The nesting that a document may have, its outermost array or object included. -/
def depthLimit : Nat := 127

def freeValue? (outer : Nat) (n : Node) : Option Value :=
  if n.depth + outer ≤ depthLimit then n.value? else none

end ComponentFile.Json.Node
