import ComponentFile.Json.Value

/-! Compact and indented JSON text. Strings escape the quote, the backslash and the controls
below the space; everything else is written as it is. -/
namespace ComponentFile.Json.Printer

def escape (c : Char) : Text :=
  if c = '"' then ['\\', '"']
  else if c = '\\' then ['\\', '\\']
  else if c = '\x08' then ['\\', 'b']
  else if c = '\x0c' then ['\\', 'f']
  else if c = '\n' then ['\\', 'n']
  else if c = '\r' then ['\\', 'r']
  else if c = '\t' then ['\\', 't']
  else if c.toNat < 0x20 then
    ['\\', 'u', '0', '0', Nat.digitChar (c.toNat / 16), Nat.digitChar (c.toNat % 16)]
  else [c]

def string (t : Text) : Text := '"' :: t.flatMap escape ++ ['"']

def numeral (n : Numeral) : Text :=
  (if n.negative then ['-'] else []) ++ n.whole ++
    (match n.fraction with
      | some ds => '.' :: ds
      | none => []) ++
    (match n.exponent with
      | some (negative, ds) => 'e' :: (if negative then '-' :: ds else ds)
      | none => [])

mutual

def compact : Value → Text
  | .null => "null"
  | .bool b => if b then "true" else "false"
  | .int i => Text.ofInt i
  | .real n => numeral n
  | .string s => string s
  | .array [] => "[]"
  | .array (v :: vs) => '[' :: compact v ++ compactItems vs ++ [']']
  | .object [] => "\x7b\x7d"
  | .object ((k, v) :: ms) => '\x7b' :: string k ++ ':' :: compact v ++ compactMembers ms ++ ['\x7d']

def compactItems : List Value → Text
  | [] => []
  | v :: vs => ',' :: compact v ++ compactItems vs

def compactMembers : List (Text × Value) → Text
  | [] => []
  | (k, v) :: ms => ',' :: string k ++ ':' :: compact v ++ compactMembers ms

end

def newLine (level : Nat) : Text := '\n' :: List.replicate (2 * level) ' '

mutual

def pretty (level : Nat) : Value → Text
  | .array [] => "[]"
  | .array (v :: vs) =>
      '[' :: newLine (level + 1) ++ pretty (level + 1) v ++ prettyItems (level + 1) vs ++
        newLine level ++ [']']
  | .object [] => "\x7b\x7d"
  | .object ((k, v) :: ms) =>
      '\x7b' :: newLine (level + 1) ++ string k ++ ": " ++ pretty (level + 1) v ++
        prettyMembers (level + 1) ms ++ newLine level ++ ['\x7d']
  | .null => "null"
  | .bool b => if b then "true" else "false"
  | .int i => Text.ofInt i
  | .real n => numeral n
  | .string s => string s

def prettyItems (level : Nat) : List Value → Text
  | [] => []
  | v :: vs => ',' :: newLine level ++ pretty level v ++ prettyItems level vs

def prettyMembers (level : Nat) : List (Text × Value) → Text
  | [] => []
  | (k, v) :: ms => ',' :: newLine level ++ string k ++ ": " ++ pretty level v ++ prettyMembers level ms

end

end Printer

def Value.render (v : Value) : Text := Printer.compact v

def Value.renderPretty (v : Value) : Text := Printer.pretty 0 v

end ComponentFile.Json
