import ComponentFile.Script.Identifier

/-! A place in a script, and the blanks and comments that may be skipped from it. -/
namespace ComponentFile.Script

structure Cursor where
  pos : Nat
  rest : Text
  deriving DecidableEq, Repr

def isLineEnd (c : Char) : Bool := c = '\n' || c = '\r' || c = '\u2028' || c = '\u2029'

def isSpace (c : Char) : Bool :=
  c = ' ' || c = '\t' || c = '\x0b' || c = '\x0c' || c = '\u0085' || c = '\u00A0' || c = '\u1680' ||
    ('\u2000' ≤ c && c ≤ '\u200B') || c = '\u202F' || c = '\u205F' || c = '\u3000' || c = '\uFEFF'

namespace Cursor

def peek (s : Cursor) : Option Char := s.rest.head?

def startsWith (s : Cursor) (t : Text) : Bool := t.isPrefixOf s.rest

def next (s : Cursor) : Cursor :=
  match s.rest with
  | [] => s
  | c :: rest => ⟨s.pos + c.utf8Size, rest⟩

def skip (n : Nat) (s : Cursor) : Cursor :=
  match n with
  | 0 => s
  | n + 1 => skip n s.next

def skipWhileFrom (p : Char → Bool) (pos : Nat) : Text → Cursor
  | [] => ⟨pos, []⟩
  | c :: rest => if p c then skipWhileFrom p (pos + c.utf8Size) rest else ⟨pos, c :: rest⟩

def skipWhile (p : Char → Bool) (s : Cursor) : Cursor := skipWhileFrom p s.pos s.rest

def skipLine (s : Cursor) : Cursor := s.skipWhile (!isLineEnd ·)

end Cursor

inductive Skipping where
  | code
  | lineComment
  | blockComment
  deriving DecidableEq, Repr

/-- Skips blanks and comments, and tells whether a line ended in them or had before. A block
comment that is not closed runs to the end. -/
def skipSpaceFrom (mode : Skipping) (newLine : Bool) (pos : Nat) : Text → Bool × Cursor
  | [] => (newLine, ⟨pos, []⟩)
  | [c] =>
      match mode with
      | .code =>
          if isLineEnd c then (true, ⟨pos + c.utf8Size, []⟩)
          else if isSpace c then (newLine, ⟨pos + c.utf8Size, []⟩)
          else (newLine, ⟨pos, [c]⟩)
      | _ => (newLine || isLineEnd c, ⟨pos + c.utf8Size, []⟩)
  | c :: d :: rest =>
      match mode with
      | .code =>
          if c = '/' ∧ d = '/' then skipSpaceFrom .lineComment newLine (pos + 2) rest
          else if c = '/' ∧ d = '*' then skipSpaceFrom .blockComment newLine (pos + 2) rest
          else if isLineEnd c then skipSpaceFrom .code true (pos + c.utf8Size) (d :: rest)
          else if isSpace c then skipSpaceFrom .code newLine (pos + c.utf8Size) (d :: rest)
          else (newLine, ⟨pos, c :: d :: rest⟩)
      | .lineComment =>
          if isLineEnd c then skipSpaceFrom .code true (pos + c.utf8Size) (d :: rest)
          else skipSpaceFrom .lineComment newLine (pos + c.utf8Size) (d :: rest)
      | .blockComment =>
          if c = '*' ∧ d = '/' then skipSpaceFrom .code newLine (pos + 2) rest
          else skipSpaceFrom .blockComment (newLine || isLineEnd c) (pos + c.utf8Size) (d :: rest)

def Cursor.skipSpace (newLine : Bool) (s : Cursor) : Bool × Cursor :=
  skipSpaceFrom .code newLine s.pos s.rest

end ComponentFile.Script
