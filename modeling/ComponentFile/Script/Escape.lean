import ComponentFile.Script.Cursor
import ComponentFile.Word

/-! Escapes of identifiers, strings and templates. Only their extent is found: what an escape
stands for is not kept. A failing escape ends where the fault was seen. -/
namespace ComponentFile.Script

structure Escaped where
  ok : Bool
  cursor : Cursor
  deriving DecidableEq, Repr

/-- Reads hexadecimal digits up to `limit` of them, or as many as there are for zero, and passes
over underscores. No value when there are too few, or once the value leaves 32 bits. -/
def hexRun (limit : Nat) (seen value pos : Nat) : Text → Option Nat × Cursor
  | [] => (if seen = 0 ∨ seen < limit then none else some value, ⟨pos, []⟩)
  | c :: rest =>
      if limit ≠ 0 ∧ seen = limit then (some value, ⟨pos, c :: rest⟩)
      else if c = '_' then hexRun limit seen value (pos + 1) rest
      else
        match Ranges.hexDigit? c with
        | some d =>
            if !Word.fits32 (value * 16 + d : Nat) then (none, ⟨pos + 1, rest⟩)
            else hexRun limit (seen + 1) (value * 16 + d) (pos + 1) rest
        | none => (if seen = 0 ∨ seen < limit then none else some value, ⟨pos, c :: rest⟩)

def Cursor.hex (limit : Nat) (s : Cursor) : Option Nat × Cursor := hexRun limit 0 0 s.pos s.rest

def isSurrogate (n : Nat) : Bool := 0xD800 ≤ n && n < 0xE000

def closeBrace (braced : Bool) (s : Cursor) : Escaped :=
  if braced then
    if s.peek = some '\x7d' then ⟨true, s.next⟩ else ⟨false, s⟩
  else ⟨true, s⟩

/-- The second half of a surrogate pair may follow as an escape of its own. Another escape there
is left alone. -/
def trailingHalf (braced : Bool) (s : Cursor) : Escaped :=
  if s.startsWith "\\u" then
    match (s.skip 2).hex 4 with
    | (none, t) => ⟨false, t⟩
    | (some n, t) => closeBrace braced (if 0xDC00 ≤ n ∧ n < 0xE000 then t else s)
  else closeBrace braced s

def unicodeEscape (s : Cursor) : Escaped :=
  let afterLetter := s.next
  let braced := afterLetter.peek = some '\x7b'
  let digits := if braced then afterLetter.next else afterLetter
  match digits.hex (if braced then 0 else 4) with
  | (none, t) => ⟨false, t⟩
  | (some n, t) =>
      if 0x10FFFF < n then ⟨false, t⟩
      else if isSurrogate n then
        match digits.hex 4 with
        | (none, u) => ⟨false, u⟩
        | (some m, u) =>
            if 0xD800 ≤ m ∧ m < 0xDC00 then trailingHalf braced u else closeBrace braced u
      else closeBrace braced t

def escape (s : Cursor) : Escaped :=
  let t := s.next
  match t.peek with
  | none => ⟨false, t⟩
  | some c =>
      if c = '\r' then ⟨true, if t.next.peek = some '\n' then t.next.next else t.next⟩
      else if c = 'x' then
        match t.next.hex 2 with
        | (some _, u) => ⟨true, u⟩
        | (none, u) => ⟨false, u⟩
      else if c = 'u' then unicodeEscape t
      else ⟨true, t.next⟩

end ComponentFile.Script
