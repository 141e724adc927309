import ComponentFile.Markup.ReferenceNames

/-! Character references in attribute values: by name, by decimal number and by hexadecimal
number, each ended by a semicolon. What is no reference is kept as it is. -/
namespace ComponentFile.Markup.Reference

/-- Numbers that a reference may stand for: no surrogate, and of the controls below the space only
tab, line feed, form feed and carriage return. -/
def isAllowed (n : Nat) : Bool :=
  if n < 0x20 then n == 0x9 || n == 0xA || n == 0xC || n == 0xD
  else n ≤ 0x10FFFF && !(0xD800 ≤ n && n ≤ 0xDFFF)

def ofNumber? (n : Nat) : Option Char := if isAllowed n then some (Char.ofNat n) else none

def isHexDigit (c : Char) : Bool := (Ranges.hexDigit? c).isSome

def ofHex? (digits : Text) : Option Char :=
  if !digits.isEmpty && digits.all isHexDigit then ofNumber? (Ranges.hexValue digits) else none

def resolve? : Text → Option Char
  | '#' :: 'x' :: digits => ofHex? digits
  | '#' :: 'X' :: digits => ofHex? digits
  | '#' :: digits =>
      if !digits.isEmpty && digits.all Char.isDigit then
        ofNumber? (digits.foldl (fun n c => n * 10 + (c.toNat - '0'.toNat)) 0)
      else none
  | name => (namedReferences.find? (·.1 == name)).map (·.2)

def decodeFrom : Option Text → Text → Text
  | none, [] => []
  | some body, [] => '&' :: body.reverse
  | none, c :: rest => if c = '&' then decodeFrom (some []) rest else c :: decodeFrom none rest
  | some body, c :: rest =>
      if c = ';' then
        match resolve? body.reverse with
        | some found => found :: decodeFrom none rest
        | none => '&' :: body.reverse ++ ';' :: decodeFrom none rest
      else if c = '&' then '&' :: body.reverse ++ decodeFrom (some []) rest
      else decodeFrom (some (c :: body)) rest

def decode (t : Text) : Text := decodeFrom none t

end ComponentFile.Markup.Reference
