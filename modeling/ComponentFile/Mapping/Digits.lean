import ComponentFile.Text.Base64
import ComponentFile.Text.Quoted
import ComponentFile.Word

/-! Numbers as base-64 digits, least first. Each digit holds five bits and a mark that more
follow; the lowest bit of the whole is the sign. Arithmetic is that of 64-bit words. -/
namespace ComponentFile

inductive MapError where
  | json
  | unsupportedVersion (version : Nat)
  | invalidBase64 (c : Char)
  | unterminatedVlq
  | vlqOverflow
  | invalidSegment (fields : Nat)
  | outOfRange (what : Text)
  deriving DecidableEq, Repr

def MapError.message : MapError → Text
  | .json => "invalid source map JSON"
  | .unsupportedVersion v => "unsupported source map version " ++ Text.ofNat v ++ ", expected 3"
  | .invalidBase64 c => "invalid base64 digit " ++ Quoted.char c ++ " in mappings"
  | .unterminatedVlq => "unterminated VLQ value in mappings"
  | .vlqOverflow => "VLQ value overflows in mappings"
  | .invalidSegment n => "mapping segment has " ++ Text.ofNat n ++ " fields, expected 1, 4 or 5"
  | .outOfRange what => "mapping segment is out of range: " ++ what

namespace Digits

def ofWord (n : Nat) : Text :=
  if n < 32 then [Base64.digit n] else Base64.digit (n % 32 + 32) :: ofWord (n / 32)
termination_by n
decreasing_by omega

/-- The word of a number: twice its magnitude, and the sign below. The top bit of the
magnitude is lost. -/
def toWord (i : Int) : Nat := i.natAbs * 2 % Word.size64 + (if i < 0 then 1 else 0)

def encode (i : Int) : Text := ofWord (toWord i)

def signed (w : Nat) : Int := if w % 2 = 1 then -((w / 2 : Nat) : Int) else ((w / 2 : Nat) : Int)

structure Pending where
  bits : Nat
  shift : Nat
  deriving DecidableEq, Repr

/-- Reads every number of a segment. A digit past bit 64 is refused once it is known to be one. -/
def decodeFrom (pending : Option Pending) : Text → Except MapError (List Int)
  | [] => if pending.isSome then .error .unterminatedVlq else .ok []
  | c :: rest =>
      match Base64.value? c with
      | none => .error (.invalidBase64 c)
      | some digit =>
          let p := pending.getD ⟨0, 0⟩
          if 64 ≤ p.shift then .error .vlqOverflow
          else
            let bits := p.bits + (digit % 32) <<< p.shift % Word.size64
            if 32 ≤ digit then decodeFrom (some ⟨bits, p.shift + 5⟩) rest
            else (decodeFrom none rest).map (signed bits :: ·)

def decode (segment : Text) : Except MapError (List Int) := decodeFrom none segment

end Digits
end ComponentFile
