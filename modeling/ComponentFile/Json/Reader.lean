import ComponentFile.Json.Value
import ComponentFile.Text.Utf8
import ComponentFile.Text.Ranges

/-! Strict reading of JSON. Each reader returns what it read and the rest of the input. There are
no comments, no commas at the end, no zeros in front and no control characters in strings. A string
with an ill-formed byte or half of a surrogate pair is read, but stands for no text. -/
namespace ComponentFile.Json.Reader
open Utf8 (Bytes Symbol)

abbrev Input := List Symbol

def isSpace (s : Symbol) : Bool :=
  s == some ' ' || s == some '\t' || s == some '\n' || s == some '\r'

def skipSpace (i : Input) : Input := i.dropWhile isSpace

inductive Piece where
  | char (c : Char)
  | unit (n : Nat)
  | broken
  deriving DecidableEq, Repr

def shortEscape? : Char → Option Char
  | '"' => some '"'
  | '\\' => some '\\'
  | '/' => some '/'
  | 'b' => some '\x08'
  | 'f' => some '\x0c'
  | 'n' => some '\n'
  | 'r' => some '\r'
  | 't' => some '\t'
  | _ => none

def pieces : Input → Option (List Piece × Input)
  | some '"' :: rest => some ([], rest)
  | some '\\' :: some 'u' :: some a :: some b :: some c :: some d :: rest => do
      let w ← Ranges.hexDigit? a
      let x ← Ranges.hexDigit? b
      let y ← Ranges.hexDigit? c
      let z ← Ranges.hexDigit? d
      let (more, after) ← pieces rest
      some (.unit (((w * 16 + x) * 16 + y) * 16 + z) :: more, after)
  | some '\\' :: some c :: rest => do
      let e ← shortEscape? c
      let (more, after) ← pieces rest
      some (.char e :: more, after)
  | some c :: rest => do
      if c.toNat < 0x20 ∨ c = '\\' then none
      let (more, after) ← pieces rest
      some (.char c :: more, after)
  | none :: rest => do
      let (more, after) ← pieces rest
      some (.broken :: more, after)
  | [] => none

def join : List Piece → Option Text
  | [] => some []
  | .char c :: rest => (join rest).map (c :: ·)
  | .unit n :: .unit m :: rest =>
      if 0xD800 ≤ n ∧ n < 0xDC00 then
        if 0xDC00 ≤ m ∧ m < 0xE000 then
          (join rest).map (Char.ofNat (0x10000 + (n - 0xD800) * 0x400 + (m - 0xDC00)) :: ·)
        else none
      else if 0xDC00 ≤ n ∧ n < 0xE000 then none
      else (join (.unit m :: rest)).map (Char.ofNat n :: ·)
  | .unit n :: rest =>
      if 0xD800 ≤ n ∧ n < 0xE000 then none else (join rest).map (Char.ofNat n :: ·)
  | .broken :: _ => none

def string (i : Input) : Option (Option Text × Input) :=
  (pieces i).map fun (parts, rest) => (join parts, rest)

def digits : Input → Text × Input
  | some c :: rest =>
      if c.isDigit then ((c :: (digits rest).1), (digits rest).2) else ([], some c :: rest)
  | i => ([], i)

def whole (i : Input) : Option (Text × Input) :=
  match digits i with
  | ([], _) => none
  | ('0' :: _ :: _, _) => none
  | (ds, rest) => some (ds, rest)

def fraction : Input → Option (Option Text × Input)
  | some '.' :: rest =>
      match digits rest with
      | ([], _) => none
      | (ds, after) => some (some ds, after)
  | i => some (none, i)

def exponentDigits (negative : Bool) (i : Input) : Option (Option (Bool × Text) × Input) :=
  match digits i with
  | ([], _) => none
  | (ds, after) => some (some (negative, ds), after)

def exponent : Input → Option (Option (Bool × Text) × Input)
  | some c :: rest =>
      if c = 'e' ∨ c = 'E' then
        match rest with
        | some '-' :: after => exponentDigits true after
        | some '+' :: after => exponentDigits false after
        | _ => exponentDigits false rest
      else some (none, some c :: rest)
  | i => some (none, i)

def numeral (negative : Bool) (i : Input) : Option (Numeral × Input) := do
  let (w, i) ← whole i
  let (f, i) ← fraction i
  let (e, i) ← exponent i
  some (⟨negative, w, f, e⟩, i)

mutual

def node : (fuel : Nat) → Input → Option (Node × Input)
  | 0, _ => none
  | fuel + 1, i =>
      match skipSpace i with
      | some 'n' :: some 'u' :: some 'l' :: some 'l' :: rest => some (.null, rest)
      | some 't' :: some 'r' :: some 'u' :: some 'e' :: rest => some (.bool true, rest)
      | some 'f' :: some 'a' :: some 'l' :: some 's' :: some 'e' :: rest => some (.bool false, rest)
      | some '"' :: rest => (string rest).map fun (s, rest) => (.string s, rest)
      | some '[' :: rest =>
          match skipSpace rest with
          | some ']' :: rest => some (.array [], rest)
          | _ => (items fuel rest).map fun (ns, rest) => (.array ns, rest)
      | some '\x7b' :: rest =>
          match skipSpace rest with
          | some '\x7d' :: rest => some (.object [], rest)
          | _ => (members fuel rest).map fun (ms, rest) => (.object ms, rest)
      | some '-' :: rest => (numeral true rest).map fun (n, rest) => (.number n, rest)
      | i => (numeral false i).map fun (n, rest) => (.number n, rest)

def items : (fuel : Nat) → Input → Option (List Node × Input)
  | 0, _ => none
  | fuel + 1, i => do
      let (n, rest) ← node fuel i
      match skipSpace rest with
      | some ']' :: rest => some ([n], rest)
      | some ',' :: rest =>
          let (ns, rest) ← items fuel rest
          some (n :: ns, rest)
      | _ => none

def members : (fuel : Nat) → Input → Option (List (Option Text × Node) × Input)
  | 0, _ => none
  | fuel + 1, i => do
      match skipSpace i with
      | some '"' :: rest =>
          let (key, rest) ← string rest
          match skipSpace rest with
          | some ':' :: rest =>
              let (n, rest) ← node fuel rest
              match skipSpace rest with
              | some '\x7d' :: rest => some ([(key, n)], rest)
              | some ',' :: rest =>
                  let (ms, rest) ← members fuel rest
                  some ((key, n) :: ms, rest)
              | _ => none
          | _ => none
      | _ => none

end

def document (i : Input) : Option Node :=
  match node (i.length + 1) i with
  | some (n, rest) => if (skipSpace rest).isEmpty then some n else none
  | none => none

end Reader

def Node.ofText? (t : Text) : Option Node := Reader.document (t.map some)

def Node.ofBytes? (bytes : Utf8.Bytes) : Option Node := Reader.document (Utf8.symbols bytes)

end ComponentFile.Json
