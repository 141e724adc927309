import ComponentFile.Text.Basic

/-! UTF-8 read without loss. A byte sequence is cut into characters and ill-formed pieces, each
piece the longest start of a character that its continuation rules out. Strict and lenient
decoding are two views of that one cut. -/
namespace ComponentFile.Utf8

abbrev Bytes := List UInt8

abbrev Symbol := Option Char

/-- What a first byte announces: how many bytes follow, the range of the next one, and its bits. -/
def lead (b : Nat) : Option (Nat × Nat × Nat × Nat) :=
  if b < 0x80 then some (0, 0x80, 0xBF, b)
  else if 0xC2 ≤ b ∧ b ≤ 0xDF then some (1, 0x80, 0xBF, b - 0xC0)
  else if b = 0xE0 then some (2, 0xA0, 0xBF, 0)
  else if b = 0xED then some (2, 0x80, 0x9F, 0xD)
  else if 0xE1 ≤ b ∧ b ≤ 0xEF then some (2, 0x80, 0xBF, b - 0xE0)
  else if b = 0xF0 then some (3, 0x90, 0xBF, 0)
  else if 0xF1 ≤ b ∧ b ≤ 0xF3 then some (3, 0x80, 0xBF, b - 0xF0)
  else if b = 0xF4 then some (3, 0x80, 0x8F, 4)
  else none

def follow : (owed low high acc : Nat) → Bytes → Symbol × Bytes
  | 0, _, _, acc, rest => (some (Char.ofNat acc), rest)
  | _ + 1, _, _, _, [] => (none, [])
  | owed + 1, low, high, acc, b :: rest =>
      if low ≤ b.toNat ∧ b.toNat ≤ high then
        follow owed 0x80 0xBF (acc * 64 + (b.toNat - 0x80)) rest
      else (none, b :: rest)

def next (b : UInt8) (rest : Bytes) : Symbol × Bytes :=
  match lead b.toNat with
  | some (owed, low, high, bits) => follow owed low high bits rest
  | none => (none, rest)

theorem followShortens (owed low high acc : Nat) (bytes : Bytes) :
    (follow owed low high acc bytes).2.length ≤ bytes.length := by
  induction owed generalizing low high acc bytes with
  | zero => simp [follow]
  | succ owed ih =>
    cases bytes with
    | nil => simp [follow]
    | cons b rest =>
      simp only [follow]
      split
      · exact Nat.le_succ_of_le (ih ..)
      · exact Nat.le_refl _

theorem nextShortens (b : UInt8) (rest : Bytes) : (next b rest).2.length ≤ rest.length := by
  unfold next
  split
  · exact followShortens ..
  · exact Nat.le_refl _

def symbols : Bytes → List Symbol
  | [] => []
  | b :: rest =>
      have := nextShortens b rest
      (next b rest).1 :: symbols (next b rest).2
termination_by bytes => bytes.length
decreasing_by simp only [List.length_cons]; omega

/-- The text, or the length of the longest part from the start that is text. -/
def decode (bytes : Bytes) : Except Nat Text :=
  collect [] (symbols bytes)
where
  collect (before : Text) : List Symbol → Except Nat Text
    | [] => .ok before.reverse
    | some c :: rest => collect (c :: before) rest
    | none :: _ => .error (Text.size before)

def decodeLenient (bytes : Bytes) : Text :=
  (symbols bytes).map (·.getD '\uFFFD')

def encode (t : Text) : Bytes := t.flatMap String.utf8EncodeChar

end ComponentFile.Utf8
