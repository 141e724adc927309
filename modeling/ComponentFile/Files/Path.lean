import ComponentFile.Text.Basic

/-! Paths as they are written. Two paths are the same when their components are: repeated and
trailing slashes and a single dot inside count for nothing, a dot at the front counts. -/
namespace ComponentFile

structure Path where
  text : Text
  deriving Repr

namespace Path

inductive Component where
  | root
  | current
  | parent
  | name (t : Text)
  deriving DecidableEq, Repr

def isAbsolute (p : Path) : Bool := p.text.head? = some '/'

def component? (part : Text) : Option Component :=
  if part = [] ∨ part = ['.'] then none
  else if part = ['.', '.'] then some .parent
  else some (.name part)

def components (p : Path) : List Component :=
  let parts := Text.splitAt '/' p.text
  let front : List Component :=
    if p.isAbsolute then [.root] else if parts.head? = some ['.'] then [.current] else []
  front ++ parts.filterMap component?

instance : BEq Path := ⟨fun p q => p.components == q.components⟩

def join (p : Path) (t : Text) : Path :=
  if (Path.mk t).isAbsolute then ⟨t⟩
  else if p.text.isEmpty ∨ p.text.getLast? = some '/' then ⟨p.text ++ t⟩
  else ⟨p.text ++ '/' :: t⟩

def fileName? (p : Path) : Option Text :=
  match p.components.getLast? with
  | some (.name t) => some t
  | _ => none

def extensionOf? (name : Text) : Option Text :=
  match (name.reverse.dropWhile (· ≠ '.')).drop 1 with
  | [] => none
  | _ :: _ => some (name.reverse.takeWhile (· ≠ '.')).reverse

def extension? (p : Path) : Option Text := p.fileName?.bind extensionOf?

namespace Component

def text : Component → Text
  | .root => []
  | .current => ['.']
  | .parent => ['.', '.']
  | .name t => t

end Component

def ofComponents : List Component → Path
  | [.root] => ⟨['/']⟩
  | cs => ⟨List.intercalate ['/'] (cs.map Component.text)⟩

def parent? (p : Path) : Option Path :=
  match p.components.reverse with
  | [] => none
  | [.root] => none
  | _ :: before => some (ofComponents before.reverse)

end Path
end ComponentFile
