import ComponentFile.Proofs.Mapping.Groups
import ComponentFile.Word

/-! Lists of numbers as segments. Every number of 64 bits but the least one is read back from its
digits, and the least one is never read. -/
namespace ComponentFile.Digits

def leastNumber : Int := -9223372036854775808

theorem magnitudeExact {i : Int} :
    i.natAbs * 2 < Word.size64 ↔ Word.fitsSigned64 i = true ∧ i ≠ leastNumber := by
  unfold Word.size64 leastNumber
  simp only [Word.fitsSigned64, Bool.and_eq_true, decide_eq_true_eq]
  omega

theorem encodeListRead {values : List Int} (fits : ∀ i ∈ values, i.natAbs * 2 < Word.size64) :
    decode (values.flatMap encode) = .ok values := by
  induction values with
  | nil => rfl
  | cons i rest ih =>
    have onward : decode (rest.flatMap encode) = .ok rest :=
      ih fun j member => fits j (List.mem_cons_of_mem i member)
    unfold decode at onward ⊢
    rw [List.flatMap_cons, encodeRead i (fits i List.mem_cons_self), onward]
    rfl

def Pending.Sound (p : Pending) : Prop := p.bits < 2 ^ p.shift ∧ 5 ∣ p.shift

theorem soundBits {p : Pending} (sound : p.Sound) (digit : Nat) (room : p.shift < 64) :
    p.bits + (digit % 32) <<< p.shift % Word.size64 < Word.size64 := by
  rw [addShifted _ sound.1 (Nat.le_of_lt room)]
  exact Nat.mod_lt _ (by decide)

theorem soundMore {p : Pending} (sound : p.Sound) (digit : Nat) :
    Pending.Sound ⟨p.bits + (digit % 32) <<< p.shift % Word.size64, p.shift + 5⟩ := by
  have low : digit % 32 + 1 ≤ 32 := Nat.mod_lt _ (by decide)
  have inside : (digit % 32) <<< p.shift % Word.size64 ≤ 2 ^ p.shift * (digit % 32) := by
    rw [Nat.shiftLeft_eq, Nat.mul_comm]
    exact Nat.mod_le _ _
  have next : 2 ^ p.shift * (digit % 32) + 2 ^ p.shift ≤ 2 ^ (p.shift + 5) := by
    rw [← Nat.mul_succ, Nat.pow_add]
    exact Nat.mul_le_mul_left _ low
  have below := sound.1
  exact ⟨by simp only; omega, Nat.dvd_add sound.2 (Nat.dvd_refl 5)⟩

theorem soundStart : ((none : Option Pending).getD ⟨0, 0⟩).Sound := ⟨by decide, Nat.dvd_zero 5⟩

theorem signedFits {w : Nat} (below : w < Word.size64) : (signed w).natAbs * 2 < Word.size64 := by
  unfold Word.size64 at below ⊢
  unfold signed
  split <;> omega

theorem decodeFromFits {pending : Option Pending} {segment : Text} {values : List Int}
    (sound : (pending.getD ⟨0, 0⟩).Sound) (read : decodeFrom pending segment = .ok values) :
    ∀ i ∈ values, i.natAbs * 2 < Word.size64 := by
  induction segment generalizing pending values with
  | nil =>
    simp only [decodeFrom] at read
    split at read
    · contradiction
    · cases read
      simp
  | cons c rest ih =>
    simp only [decodeFrom] at read
    split at read
    · contradiction
    · rename_i digit _
      split at read
      · contradiction
      · rename_i room
        split at read
        · refine ih ?_ read
          exact soundMore sound digit
        · cases later : decodeFrom none rest with
          | error e => rw [later] at read; contradiction
          | ok others =>
            rw [later] at read
            cases read
            rw [List.forall_mem_cons]
            exact ⟨signedFits (soundBits sound digit (Nat.not_le.mp room)),
              ih soundStart later⟩

theorem decodeFits {segment : Text} {values : List Int} (read : decode segment = .ok values) :
    ∀ i ∈ values, i.natAbs * 2 < Word.size64 :=
  decodeFromFits soundStart read

theorem encodeListDigits (values : List Int) :
    ∀ c ∈ values.flatMap encode, c ∈ Base64.alphabet ∧ c ≠ ',' ∧ c ≠ ';' := by
  have listed : ∀ n : Fin 64, Base64.digit n ∈ Base64.alphabet := by decide +kernel
  intro c member
  obtain ⟨i, _, inside⟩ := List.mem_flatMap.mp member
  obtain ⟨n, below, rfl⟩ := encodeDigits i c inside
  exact ⟨listed ⟨n, below⟩, encodeParts i inside⟩

/- Every list of 64-bit numbers without the least one is read back from its digits, put one behind
the other, and no separator is among these. What is read from any segment is such a list. -/
theorem numbersReadBack :
    (∀ values : List Int, (∀ i ∈ values, Word.fitsSigned64 i = true ∧ i ≠ leastNumber) →
        decode (values.flatMap encode) = .ok values ∧
          ∀ c ∈ values.flatMap encode, c ∈ Base64.alphabet ∧ c ≠ ',' ∧ c ≠ ';') ∧
      ∀ (segment : Text) (values : List Int), decode segment = .ok values →
        (∀ i ∈ values, Word.fitsSigned64 i = true ∧ i ≠ leastNumber) ∧
          decode (values.flatMap encode) = .ok values := by
  constructor
  · intro values fits
    exact ⟨encodeListRead fun i member => magnitudeExact.mpr (fits i member),
      encodeListDigits values⟩
  · intro segment values read
    have small := decodeFits read
    exact ⟨fun i member => magnitudeExact.mp (small i member), encodeListRead small⟩

theorem limitsReadBack :
    decode (([2 ^ 63 - 1, -(2 ^ 63 - 1), 0] : List Int).flatMap encode) =
        .ok [2 ^ 63 - 1, -(2 ^ 63 - 1), 0] ∧
      decode "ggAhA" = .ok [0, 0] ∧ decode (([0, 0] : List Int).flatMap encode) = .ok [0, 0] := by
  obtain ⟨written, read⟩ := numbersReadBack
  have padded : decode "ggAhA" = .ok [0, 0] := by decide +kernel
  exact ⟨(written _ (by decide +kernel)).1, padded, (read _ _ padded).2⟩

end ComponentFile.Digits
