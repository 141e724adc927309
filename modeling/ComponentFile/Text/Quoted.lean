import ComponentFile.Text.Printable

/-! Text and characters between quotes, with a backslash before what could be misread and code
points in braces for what is not shown. Only the quote that surrounds is escaped. -/
namespace ComponentFile.Quoted

def escape (quote c : Char) : Text :=
  if c = '\x00' then ['\\', '0']
  else if c = '\t' then ['\\', 't']
  else if c = '\r' then ['\\', 'r']
  else if c = '\n' then ['\\', 'n']
  else if c = '\\' ∨ c = quote then ['\\', c]
  else if Text.isPrintable c then [c]
  else "\\u\x7b" ++ Text.hex c.toNat ++ "\x7d"

def text (t : Text) : Text := '"' :: t.flatMap (escape '"') ++ ['"']

def char (c : Char) : Text := '\'' :: escape '\'' c ++ ['\'']

def list (items : List Text) : Text := '[' :: List.intercalate ", " items ++ [']']

end ComponentFile.Quoted
