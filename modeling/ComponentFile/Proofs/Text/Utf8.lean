import ComponentFile.Text.Utf8
import ComponentFile.Proofs.Text.Split

/-! UTF-8 in front of any bytes: a written character is read back whole, so that text is decoded
from its own bytes, and none of its bytes is taken for an ASCII character that is not there. -/
namespace ComponentFile.Utf8

theorem codeBounds (c : Char) : c.toNat < 0xD800 ∨ 0xDFFF < c.toNat ∧ c.toNat < 0x110000 := c.valid

theorem byteToNat {n : Nat} (small : n < 256) : (UInt8.ofNat n).toNat = n := by
  rw [UInt8.toNat_ofNat']
  omega

inductive Written (v : Nat) : Bytes → Prop where
  | one (most : v < 0x80) : Written v [.ofNat v]
  | two (least : 0x80 ≤ v) (most : v < 0x800) :
      Written v [.ofNat (v / 64 + 0xC0), .ofNat (v % 64 + 0x80)]
  | three (least : 0x800 ≤ v) (most : v < 0x10000) :
      Written v [.ofNat (v / 4096 + 0xE0), .ofNat (v / 64 % 64 + 0x80), .ofNat (v % 64 + 0x80)]
  | four (least : 0x10000 ≤ v) :
      Written v [.ofNat (v / 262144 + 0xF0), .ofNat (v / 4096 % 64 + 0x80),
        .ofNat (v / 64 % 64 + 0x80), .ofNat (v % 64 + 0x80)]

theorem characterWritten (c : Char) : Written c.toNat (String.utf8EncodeChar c) := by
  have bounds := codeBounds c
  have form : String.utf8EncodeChar c =
      if c.toNat ≤ 127 then [.ofNat c.toNat]
      else if c.toNat ≤ 2047 then [.ofNat (c.toNat / 64 % 32 + 192), .ofNat (c.toNat % 64 + 128)]
      else if c.toNat ≤ 65535 then
        [.ofNat (c.toNat / 4096 % 16 + 224), .ofNat (c.toNat / 64 % 64 + 128),
          .ofNat (c.toNat % 64 + 128)]
      else
        [.ofNat (c.toNat / 262144 % 8 + 240), .ofNat (c.toNat / 4096 % 64 + 128),
          .ofNat (c.toNat / 64 % 64 + 128), .ofNat (c.toNat % 64 + 128)] := rfl
  rw [form]
  generalize c.toNat = v at bounds
  split
  · exact .one (by omega)
  · split
    · have first : v / 64 % 32 + 192 = v / 64 + 0xC0 := by omega
      rw [first]
      exact .two (by omega) (by omega)
    · split
      · have first : v / 4096 % 16 + 224 = v / 4096 + 0xE0 := by omega
        rw [first]
        exact .three (by omega) (by omega)
      · have first : v / 262144 % 8 + 240 = v / 262144 + 0xF0 := by omega
        rw [first]
        exact .four (by omega)

section Read
variable {n owed low high bits acc : Nat} {rest : Bytes}

theorem leadTwo (least : 0xC2 ≤ n) (most : n ≤ 0xDF) : lead n = some (1, 0x80, 0xBF, n - 0xC0) := by
  unfold lead
  rw [if_neg (by omega), if_pos ⟨least, most⟩]

theorem leadThree (least : 0xE0 ≤ n) (most : n ≤ 0xEF) :
    lead n = some (2, if n = 0xE0 then 0xA0 else 0x80, if n = 0xED then 0x9F else 0xBF, n - 0xE0) := by
  unfold lead
  rw [if_neg (by omega), if_neg (by omega)]
  split
  · rename_i here
    rw [here]
    rfl
  · split
    · rename_i here
      rw [here]
    · rw [if_pos (by omega)]

theorem leadFour (least : 0xF0 ≤ n) (most : n ≤ 0xF4) :
    lead n = some (3, if n = 0xF0 then 0x90 else 0x80, if n = 0xF4 then 0x8F else 0xBF, n - 0xF0) := by
  unfold lead
  rw [if_neg (by omega), if_neg (by omega), if_neg (by omega), if_neg (by omega), if_neg (by omega)]
  split
  · rename_i here
    rw [here]
    rfl
  · by_cases last : n = 0xF4
    · rw [if_neg (by omega), if_pos last, last]
      rfl
    · rw [if_pos (by omega), if_neg last]

theorem nextByte (small : n < 256) (announced : lead n = some (owed, low, high, bits)) :
    next (UInt8.ofNat n) rest = follow owed low high bits rest := by
  unfold next
  rw [byteToNat small, announced]

theorem followByte (bounds : low ≤ n ∧ n ≤ high) (small : n < 256) :
    follow (owed + 1) low high acc (UInt8.ofNat n :: rest) =
      follow owed 0x80 0xBF (acc * 64 + (n - 0x80)) rest := by
  simp only [follow, byteToNat small]
  rw [if_pos bounds]

theorem followDone {c : Char} (code : acc = c.toNat) :
    follow 0 low high acc rest = (some c, rest) := by
  rw [code, follow, Char.ofNat_toNat]

theorem symbolsNext {b : UInt8} {bytes : Bytes} {c : Char} (read : next b bytes = (some c, rest)) :
    symbols (b :: bytes) = some c :: symbols rest := by
  rw [symbols, read]

end Read

theorem symbolsCharacter (c : Char) (rest : Bytes) :
    symbols (String.utf8EncodeChar c ++ rest) = some c :: symbols rest := by
  have bounds := codeBounds c
  have written := characterWritten c
  generalize code : c.toNat = v at bounds written
  generalize String.utf8EncodeChar c = bytes at written
  cases written with
  | one most =>
    refine symbolsNext (Eq.trans (nextByte (by omega) (if_pos most)) ?_)
    exact followDone code.symm
  | two least most =>
    refine symbolsNext (Eq.trans (nextByte (by omega) (leadTwo (by omega) (by omega))) ?_)
    refine Eq.trans (followByte (by omega) (by omega)) ?_
    exact followDone (by omega)
  | three least most =>
    -- behind 0xE0 and 0xED the second byte is bounded further
    refine symbolsNext (Eq.trans (nextByte (by omega) (leadThree (by omega) (by omega))) ?_)
    refine Eq.trans (followByte (by constructor <;> split <;> omega) (by omega)) ?_
    refine Eq.trans (followByte (by omega) (by omega)) ?_
    exact followDone (by omega)
  | four least =>
    refine symbolsNext (Eq.trans (nextByte (by omega) (leadFour (by omega) (by omega))) ?_)
    refine Eq.trans (followByte (by constructor <;> split <;> omega) (by omega)) ?_
    refine Eq.trans (followByte (by omega) (by omega)) ?_
    refine Eq.trans (followByte (by omega) (by omega)) ?_
    exact followDone (by omega)

theorem symbolsEncode (t : Text) : symbols (encode t) = t.map some := by
  induction t with
  | nil => simp [encode, symbols]
  | cons c rest ih =>
    unfold encode at ih ⊢
    rw [List.flatMap_cons, symbolsCharacter, ih, List.map_cons]

theorem collectAll (before t : Text) :
    decode.collect before (t.map some) = .ok (before.reverse ++ t) := by
  induction t generalizing before with
  | nil => simp [decode.collect]
  | cons c rest ih => simp [decode.collect, ih]

theorem decodeEncode (t : Text) : decode (encode t) = .ok t := by
  unfold decode
  rw [symbolsEncode, collectAll]
  rfl

theorem encodeInjective {s t : Text} (same : encode s = encode t) : s = t := by
  have read := decodeEncode t
  rw [← same, decodeEncode s] at read
  cases read
  rfl

theorem characterClean {c a : Char} (ascii : a.toNat < 0x80) (other : c ≠ a) :
    ∀ b ∈ String.utf8EncodeChar c, b ≠ UInt8.ofNat a.toNat := by
  have different : c.toNat ≠ a.toNat := fun same => other (Char.toNat_inj.mp same)
  have apart {n : Nat} (small : n < 256) (high : n ≠ a.toNat) :
      UInt8.ofNat n ≠ UInt8.ofNat a.toNat := by
    intro same
    have := congrArg UInt8.toNat same
    rw [byteToNat small, byteToNat (by omega)] at this
    exact high this
  have bounds := codeBounds c
  have written := characterWritten c
  generalize c.toNat = v at bounds written different
  generalize String.utf8EncodeChar c = bytes at written
  cases written with
  | one most => simpa using apart (by omega) different
  | two least most =>
    simp only [List.forall_mem_cons, List.not_mem_nil, false_implies, implies_true, and_true]
    exact ⟨apart (by omega) (by omega), apart (by omega) (by omega)⟩
  | three least most =>
    simp only [List.forall_mem_cons, List.not_mem_nil, false_implies, implies_true, and_true]
    exact ⟨apart (by omega) (by omega), apart (by omega) (by omega), apart (by omega) (by omega)⟩
  | four least =>
    simp only [List.forall_mem_cons, List.not_mem_nil, false_implies, implies_true, and_true]
    exact ⟨apart (by omega) (by omega), apart (by omega) (by omega), apart (by omega) (by omega),
      apart (by omega) (by omega)⟩

theorem encodeCons (c : Char) (t : Text) : encode (c :: t) = String.utf8EncodeChar c ++ encode t :=
  List.flatMap_cons

theorem splitEncode {a : Char} (ascii : a.toNat < 0x80) (t : Text) :
    Text.splitAt (UInt8.ofNat a.toNat) (encode t) = (Text.splitAt a t).map encode := by
  induction t with
  | nil => rfl
  | cons c rest ih =>
    rw [encodeCons]
    by_cases here : c = a
    · subst here
      have single : String.utf8EncodeChar c = [UInt8.ofNat c.toNat] := by
        have written := characterWritten c
        generalize String.utf8EncodeChar c = bytes at written ⊢
        cases written with
        | one most => rfl
        | two least most => omega
        | three least most => omega
        | four least => omega
      rw [single, List.singleton_append, Text.splitSeparator, Text.splitSeparator, ih, List.map_cons]
      rfl
    · obtain ⟨piece, more, tail⟩ := Text.splitSome a rest
      rw [tail, List.map_cons] at ih
      rw [Text.splitAfter (characterClean ascii here) ih, Text.splitOther here tail, List.map_cons,
        encodeCons]

end ComponentFile.Utf8
