import ComponentFile.Text.Basic

/-! Sets of code points written as hexadecimal ranges. -/
namespace ComponentFile.Ranges

def hexDigit? (c : Char) : Option Nat :=
  if '0' ≤ c ∧ c ≤ '9' then some (c.toNat - '0'.toNat)
  else if 'a' ≤ c ∧ c ≤ 'f' then some (c.toNat - 'a'.toNat + 10)
  else if 'A' ≤ c ∧ c ≤ 'F' then some (c.toNat - 'A'.toNat + 10)
  else none

def hexValue (t : Text) : Nat := t.foldl (fun n c => n * 16 + (hexDigit? c).getD 0) 0

/-- Reads entries between blanks, each a code point or two of them joined by a hyphen. -/
def read (s : String) : List (Nat × Nat) :=
  (Text.words s).map fun entry =>
    match Text.splitAt '-' entry with
    | [first, last] => (hexValue first, hexValue last)
    | _ => (hexValue entry, hexValue entry)

def holds (ranges : List (Nat × Nat)) (n : Nat) : Bool := ranges.any fun r => r.1 ≤ n && n ≤ r.2

end ComponentFile.Ranges
