import ComponentFile.Script.Escape
import ComponentFile.Text.Span

/-! The extents of the lexemes of a script, read without a grammar: a slash never opens a regular
expression and a closing brace never goes on with a template. Malformed lexemes have an extent
like any other. A reading takes at least one character, which bounds the fuel of every loop. -/
namespace ComponentFile.Script

def identifier : (fuel : Nat) → Cursor → Cursor
  | 0, s => s
  | fuel + 1, s =>
      match s.peek with
      | none => s
      | some c =>
          if c = '\\' then
            if s.next.peek = some 'u' then
              let e := unicodeEscape s.next
              if e.ok then identifier fuel e.cursor else e.cursor
            else s.next
          else if continuesIdentifier c then identifier fuel s.next
          else s

def isRadixDigit (radix : Nat) (c : Char) : Bool :=
  match Ranges.hexDigit? c with
  | some d => d < radix
  | none => false

def digitRun (radix : Nat) (s : Cursor) : Cursor := s.skipWhile fun c => isRadixDigit radix c || c = '_'

def between (s t : Cursor) : Text := s.rest.take (s.rest.length - t.rest.length)

def bigSuffix (s : Cursor) : Cursor := if s.peek = some 'n' then s.next else s

def radixNumber (radix : Nat) (s : Cursor) : Cursor :=
  let stop := digitRun radix s
  if (between s stop).any (isRadixDigit radix) then bigSuffix stop else stop

def exponentPart (s : Cursor) : Cursor :=
  if s.peek = some 'e' ∨ s.peek = some 'E' then
    let t := s.next
    digitRun 10 (if t.peek = some '+' ∨ t.peek = some '-' then t.next else t)
  else s

def fractionPart (s : Cursor) : Cursor :=
  exponentPart (if s.peek = some '.' then digitRun 10 s.next else s)

/-- Digits that begin with a zero, go on, and hold neither eight nor nine. -/
def isOctalLike (digits : Text) : Bool :=
  digits.head? = some '0' && digits != ['0'] && !digits.any fun c => c = '8' || c = '9'

def decimalNumber (s : Cursor) : Cursor :=
  if s.peek = some '.' then fractionPart s
  else
    let stop := digitRun 10 s
    let digits := between s stop
    if (s.peek ≠ some '0' ∨ digits = ['0']) ∧ stop.peek = some 'n' then stop.next
    else if isOctalLike digits then stop
    else fractionPart stop

def number (s : Cursor) : Cursor :=
  match s.rest with
  | '0' :: c :: _ =>
      if c = 'x' ∨ c = 'X' then radixNumber 16 (s.skip 2)
      else if c = 'o' ∨ c = 'O' then radixNumber 8 (s.skip 2)
      else if c = 'b' ∨ c = 'B' then radixNumber 2 (s.skip 2)
      else decimalNumber s
  | _ => decimalNumber s

def stringBody (quote : Char) : (fuel : Nat) → Cursor → Cursor
  | 0, s => s
  | fuel + 1, s =>
      match s.peek with
      | none => s
      | some c =>
          if c = quote then s.next
          else if c = '\n' ∨ c = '\r' then s
          else if c = '\\' then
            let e := escape s
            if e.ok then stringBody quote fuel e.cursor else e.cursor
          else stringBody quote fuel s.next

def templateBody : (fuel : Nat) → Cursor → Cursor
  | 0, s => s
  | fuel + 1, s =>
      match s.peek with
      | none => s
      | some c =>
          if c = '\x60' then s.next
          else if s.startsWith "$\x7b" then s.skip 2
          else if c = '\\' then templateBody fuel (escape s).cursor
          else templateBody fuel s.next

/-- Longer operators stand before their beginnings. -/
def operators : List Text := List.map String.toList
  [">>>=",
    "...", "??=", "**=", "&&=", "||=", "!==", "===", "<<=", ">>>", ">>=",
    "??", "**", "*=", "%=", "&&", "&=", "||", "|=", "++", "+=", "--", "-=", "!=", "==", "=>", "<<",
    "<=", ">>", ">=", "/=", "^=",
    ".", "?", "*", "%", "&", "|", "+", "-", "!", "=", "<", ">", "/", "^", ";", ",", "~", "@", "(",
    ")", "[", "]", "\x7b", "\x7d", "#", ":"]

def operator (s : Cursor) : Cursor :=
  match operators.find? s.startsWith with
  | some t => s.skip t.length
  | none => s.next

/-- Length of a mark that makes a comment of the rest of its line. Some count only where a line
has just begun. -/
def commentMark (newLine : Bool) (s : Cursor) : Option Nat :=
  if s.startsWith "<!--" then some 4
  else if newLine && s.startsWith "-->" then some 3
  else if newLine && (s.startsWith "<<<<<<< " || s.startsWith ">>>>>>> " || s.startsWith "=======") then
    some 7
  else none

/-- The end of the lexeme that begins here. Comments that are marked like operators belong to the
lexeme after them; there is none when they run to the end. -/
def lexemeEnd : (fuel : Nat) → (newLine : Bool) → Cursor → Option Cursor
  | 0, _, _ => none
  | fuel + 1, newLine, s =>
      match s.peek with
      | none => none
      | some c =>
          match commentMark newLine s with
          | some n =>
              let (newLine, t) := (s.skip n).skipLine.skipSpace newLine
              lexemeEnd fuel newLine t
          | none =>
              if newLine && s.startsWith "||||||| " then
                some ((s.skip 7).skipLine.skipSpace newLine).2
              else if startsIdentifier c ∨ c = '\\' then some (identifier s.rest.length s)
              else if c.isDigit ∨ (c = '.' ∧ (s.next.peek.map Char.isDigit).getD false) then
                some (number s)
              else if c = '"' ∨ c = '\'' then some (stringBody c s.rest.length s.next)
              else if c = '\x60' then some (templateBody s.rest.length s.next)
              else some (operator s)

def lexemesFrom : (fuel : Nat) → Cursor → List Span
  | 0, _ => []
  | fuel + 1, s =>
      let (newLine, start) := s.skipSpace false
      match lexemeEnd (start.rest.length + 1) newLine start with
      | none => []
      | some stop => ⟨start.pos, stop.pos⟩ :: lexemesFrom fuel stop

/-- The extents in the order of the script. A byte order mark at the front is left out, and
positions count from behind it. -/
def lexemes (script : Text) : List Span :=
  let body := match script with
    | '\uFEFF' :: rest => rest
    | _ => script
  lexemesFrom (body.length + 1) ⟨0, body⟩

end ComponentFile.Script
