/-! Text as the list of its characters. Positions count UTF-8 bytes, columns may count UTF-16
units. Letter case and blanks are those of ASCII; nothing is claimed for other scripts. -/
namespace ComponentFile

abbrev Text := List Char

instance : Coe String Text := ⟨String.toList⟩

namespace Text

/-- Bytes of the UTF-8 form. -/
def size : Text → Nat
  | [] => 0
  | c :: rest => c.utf8Size + size rest

def units : Text → Nat
  | [] => 0
  | c :: rest => (if c.toNat < 0x10000 then 1 else 2) + units rest

def isBlank (c : Char) : Bool :=
  c = ' ' || c = '\t' || c = '\n' || c = '\x0c' || c = '\r'

def dropBytes? (n : Nat) : Text → Option Text
  | [] => if n = 0 then some [] else none
  | c :: rest =>
      if n = 0 then some (c :: rest)
      else if c.utf8Size ≤ n then dropBytes? (n - c.utf8Size) rest
      else none

def takeBytes? (n : Nat) : Text → Option Text
  | [] => if n = 0 then some [] else none
  | c :: rest =>
      if n = 0 then some []
      else if c.utf8Size ≤ n then (takeBytes? (n - c.utf8Size) rest).map (c :: ·)
      else none

def slice? (t : Text) (start stop : Nat) : Option Text :=
  if start ≤ stop then (dropBytes? start t).bind (takeBytes? (stop - start)) else none

def breakOn? (needle : Text) : Text → Option (Text × Text)
  | [] => if needle.isEmpty then some ([], []) else none
  | c :: rest =>
      if needle.isPrefixOf (c :: rest) then some ([], c :: rest)
      else (breakOn? needle rest).map fun (before, found) => (c :: before, found)

theorem breakOnSplits {needle t before found : Text} (h : breakOn? needle t = some (before, found)) :
    before ++ found = t := by
  induction t generalizing before with
  | nil =>
    simp only [breakOn?] at h
    split at h <;> simp_all
  | cons c rest ih =>
    simp only [breakOn?] at h
    split at h
    · cases h; rfl
    · obtain ⟨⟨b, f⟩, inner, same⟩ := Option.map_eq_some_iff.mp h
      cases same
      simp [ih inner]

theorem breakOnStarts {needle t before found : Text} (h : breakOn? needle t = some (before, found)) :
    needle.isPrefixOf found = true := by
  induction t generalizing before with
  | nil =>
    simp only [breakOn?] at h
    split at h
    · cases h; simp_all
    · contradiction
  | cons c rest ih =>
    simp only [breakOn?] at h
    split at h
    · cases h; assumption
    · obtain ⟨⟨b, f⟩, inner, same⟩ := Option.map_eq_some_iff.mp h
      cases same
      exact ih inner

def splitAt {α : Type} [DecidableEq α] (sep : α) : List α → List (List α)
  | [] => [[]]
  | c :: rest =>
      if c = sep then [] :: splitAt sep rest
      else match splitAt sep rest with
        | [] => [[c]]
        | piece :: more => (c :: piece) :: more

def words (t : Text) : List Text :=
  (splitAt ' ' (t.map fun c => if isBlank c then ' ' else c)).filter (!·.isEmpty)

def trimEnd (p : Char → Bool) (t : Text) : Text := (t.reverse.dropWhile p).reverse

def trim (p : Char → Bool) (t : Text) : Text := trimEnd p (t.dropWhile p)

def lower (t : Text) : Text := t.map Char.toLower

def ofNat (n : Nat) : Text := Nat.toDigits 10 n

def ofInt (i : Int) : Text := if i < 0 then '-' :: ofNat i.natAbs else ofNat i.natAbs

def hex (n : Nat) : Text := Nat.toDigits 16 n

/-- Order by code points, which is also the order of the UTF-8 forms. -/
def before : Text → Text → Bool
  | [], [] => false
  | [], _ :: _ => true
  | _ :: _, [] => false
  | a :: s, b :: t => if a.toNat < b.toNat then true else if b.toNat < a.toNat then false else before s t

end Text
end ComponentFile
