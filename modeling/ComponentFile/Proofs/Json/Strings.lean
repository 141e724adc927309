import ComponentFile.Json.Printer
import ComponentFile.Json.Reader

/-! Printed strings are read back. Every escape gives one part of the string, a character or a unit
below the space, and no part is joined with its neighbour. -/
namespace ComponentFile.Json.Reader

theorem joinUnit {n : Nat} (small : n < 0xD800) (parts : List Piece) :
    join (.unit n :: parts) = (join parts).map (Char.ofNat n :: ·) := by
  have lead : ¬ (0xD800 ≤ n ∧ n < 0xDC00) := by omega
  have trail : ¬ (0xDC00 ≤ n ∧ n < 0xE000) := by omega
  have half : ¬ (0xD800 ≤ n ∧ n < 0xE000) := by omega
  rcases parts with _ | ⟨_ | m | _, rest⟩
  · simp [join, half]
  · simp [join, half]
  · rw [join, if_neg lead, if_neg trail]
  · simp [join, half]

theorem hexFound {n : Nat} (below : n < 16) : Ranges.hexDigit? (Nat.digitChar n) = some n := by
  have every : ∀ i : Fin 16, Ranges.hexDigit? (Nat.digitChar i) = some i.val := by decide +kernel
  exact every ⟨n, below⟩

theorem shortRead {e c : Char} {more rest : Input} {parts : List Piece}
    (known : shortEscape? e = some c) (read : pieces more = some (parts, rest)) :
    pieces (some '\\' :: some e :: more) = some (.char c :: parts, rest) := by
  have other : e ≠ 'u' := by
    rintro rfl
    contradiction
  simp [pieces, other, known, read]

theorem controlRead {n : Nat} {more rest : Input} {parts : List Piece} (control : n < 0x20)
    (read : pieces more = some (parts, rest)) :
    pieces (some '\\' :: some 'u' :: some '0' :: some '0' :: some (Nat.digitChar (n / 16)) ::
      some (Nat.digitChar (n % 16)) :: more) = some (.unit n :: parts, rest) := by
  have zero : Ranges.hexDigit? '0' = some 0 := by decide
  have high := hexFound (show n / 16 < 16 by omega)
  have low := hexFound (show n % 16 < 16 by omega)
  have number : ((0 * 16 + 0) * 16 + n / 16) * 16 + n % 16 = n := by omega
  simp only [pieces, zero, high, low, read, number, bind, Option.bind]

theorem escapeRead (c : Char) {more rest : Input} {parts : List Piece}
    (read : pieces more = some (parts, rest)) :
    ∃ part, pieces ((Printer.escape c).map some ++ more) = some (part :: parts, rest) ∧
      join (part :: parts) = (join parts).map (c :: ·) := by
  have plain : join (.char c :: parts) = (join parts).map (c :: ·) := by rw [join]
  unfold Printer.escape
  split
  · subst c; exact ⟨.char '"', shortRead rfl read, plain⟩
  split
  · subst c; exact ⟨.char '\\', shortRead rfl read, plain⟩
  split
  · subst c; exact ⟨.char '\x08', shortRead rfl read, plain⟩
  split
  · subst c; exact ⟨.char '\x0c', shortRead rfl read, plain⟩
  split
  · subst c; exact ⟨.char '\n', shortRead rfl read, plain⟩
  split
  · subst c; exact ⟨.char '\r', shortRead rfl read, plain⟩
  split
  · subst c; exact ⟨.char '\t', shortRead rfl read, plain⟩
  split
  · rename_i control
    refine ⟨.unit c.toNat, controlRead control read, ?_⟩
    rw [joinUnit (by omega), Char.ofNat_toNat]
  · rename_i slash _ _ _ _ _ control
    refine ⟨.char c, ?_, plain⟩
    simp [pieces, slash, control, read]

theorem stringRead (t : Text) (rest : Input) :
    string ((t.flatMap Printer.escape ++ ['"']).map some ++ rest) = some (some t, rest) := by
  obtain ⟨parts, read, joined⟩ : ∃ parts,
      pieces ((t.flatMap Printer.escape ++ ['"']).map some ++ rest) = some (parts, rest) ∧
        join parts = some t := by
    induction t with
    | nil => exact ⟨[], by simp [pieces], by simp [join]⟩
    | cons c t ih =>
      obtain ⟨parts, read, joined⟩ := ih
      obtain ⟨part, first, joins⟩ := escapeRead c read
      refine ⟨part :: parts, ?_, ?_⟩
      · simpa using first
      · rw [joins, joined]
        rfl
  unfold string
  rw [read, Option.map_some]
  simp only [joined]

end ComponentFile.Json.Reader
