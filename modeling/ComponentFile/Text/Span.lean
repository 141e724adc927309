import ComponentFile.Text.Basic

/-! Half-open byte ranges of a document. -/
namespace ComponentFile

structure Span where
  start : Nat
  stop : Nat
  deriving DecidableEq, Repr

namespace Span

def empty (pos : Nat) : Span := ⟨pos, pos⟩

def isEmpty (s : Span) : Bool := s.start == s.stop

def slice? (s : Span) (t : Text) : Option Text := Text.slice? t s.start s.stop

def render (s : Span) : Text := Text.ofNat s.start ++ ".." ++ Text.ofNat s.stop

end Span
end ComponentFile
