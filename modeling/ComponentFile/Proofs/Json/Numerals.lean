import ComponentFile.Json.Printer
import ComponentFile.Json.Reader

/-! Printed numerals are read back as they were written, before anything that does not go on with
the number. -/
namespace ComponentFile.Json

def Digits (ds : Text) : Prop := ds ≠ [] ∧ ∀ c ∈ ds, c.isDigit = true

structure Numeral.Written (n : Numeral) : Prop where
  whole : Digits n.whole
  short : n.whole.head? = some '0' → n.whole = ['0']
  fraction : ∀ ds, n.fraction = some ds → Digits ds
  exponent : ∀ sign ds, n.exponent = some (sign, ds) → Digits ds

def Numeral.ofInt (i : Int) : Numeral := ⟨i < 0, Text.ofNat i.natAbs, none, none⟩

theorem digitsOfNat (n : Nat) : Digits (Text.ofNat n) :=
  ⟨Nat.toDigits_ne_nil, fun _ member => Nat.isDigit_of_mem_toDigits (by decide) (by decide) member⟩

theorem valueOfNat (n : Nat) : Numeral.digitsValue (Text.ofNat n) = n := by
  have step : Numeral.append = fun sofar c => 10 * sofar + (c.toNat - '0'.toNat) := by
    funext sofar c
    rw [Numeral.append, Nat.mul_comm]
  unfold Numeral.digitsValue Text.ofNat
  rw [step, ← Nat.ofDigitChars_eq_foldl]
  exact Nat.ofDigitChars_ten_toDigits

theorem frontOfNat {n : Nat} (zero : (Text.ofNat n).head? = some '0') : n = 0 := by
  unfold Text.ofNat at zero
  induction n using Nat.strongRecOn with
  | ind n ih =>
    by_cases short : n < 10
    · rw [Nat.toDigits_of_lt_base short] at zero
      simpa using zero
    · have front : (Nat.toDigits 10 (n / 10)).head? = some '0' := by
        rw [Nat.toDigits_of_base_le (by decide) (by omega), List.head?_append] at zero
        rwa [List.head?_eq_some_head Nat.toDigits_ne_nil] at zero ⊢
      have := ih (n / 10) (by omega) front
      omega

theorem writtenOfInt (i : Int) : (Numeral.ofInt i).Written := by
  refine ⟨digitsOfNat _, ?_, by simp [Numeral.ofInt], by simp [Numeral.ofInt]⟩
  intro zero
  unfold Numeral.ofInt at zero ⊢
  rw [frontOfNat zero]
  rfl

theorem intOfInt (i : Int) : (Numeral.ofInt i).toInt? = some i := by
  unfold Numeral.ofInt Numeral.toInt?
  simp only [valueOfNat, Option.isSome_none, Bool.false_eq_true, or_self, if_false,
    decide_eq_true_eq]
  split
  · rw [if_neg (by omega)]
    congr 1
    omega
  · congr 1
    omega

theorem printOfInt (i : Int) : Text.ofInt i = Printer.numeral (Numeral.ofInt i) := by
  unfold Text.ofInt Printer.numeral Numeral.ofInt
  by_cases negative : i < 0
  · simp [negative]
  · simp [negative]

namespace Reader

def Stops (rest : Input) : Prop :=
  ∀ c, rest.head? = some (some c) → c.isDigit = false ∧ c ≠ '.' ∧ c ≠ 'e' ∧ c ≠ 'E'

theorem digitsRead {ds : Text} {rest : Input} (all : ∀ c ∈ ds, c.isDigit = true)
    (stops : ∀ c, rest.head? = some (some c) → c.isDigit = false) :
    digits (ds.map some ++ rest) = (ds, rest) := by
  induction ds with
  | nil =>
    rcases rest with _ | ⟨_ | c, more⟩
    · rfl
    · rfl
    · have other := stops c rfl
      simp [digits, other]
  | cons c ds ih =>
    have here := all c List.mem_cons_self
    have later := ih fun d member => all d (List.mem_cons_of_mem c member)
    simp only [List.map_cons, List.cons_append, digits, here, later, if_true]

theorem wholeRead {n : Numeral} {rest : Input} (written : n.Written)
    (stops : ∀ c, rest.head? = some (some c) → c.isDigit = false) :
    whole (n.whole.map some ++ rest) = some (n.whole, rest) := by
  have read := digitsRead written.whole.2 stops
  unfold whole
  rw [read]
  split
  · rename_i none
    exact absurd (congrArg Prod.fst none) written.whole.1
  · rename_i c more _ zero
    have same : n.whole = '0' :: c :: more := congrArg Prod.fst zero
    have short := written.short (by rw [same]; rfl)
    rw [same] at short
    simp at short
  · rename_i found
    exact (congrArg some found).symm

def fractionText : Option Text → Text
  | some ds => '.' :: ds
  | none => []

def exponentText : Option (Bool × Text) → Text
  | some (negative, ds) => 'e' :: (if negative then '-' :: ds else ds)
  | none => []

theorem exponentDigitsRead (negative : Bool) {ds : Text} {rest : Input} (written : Digits ds)
    (stops : ∀ c, rest.head? = some (some c) → c.isDigit = false) :
    exponentDigits negative (ds.map some ++ rest) = some (some (negative, ds), rest) := by
  unfold exponentDigits
  rw [digitsRead written.2 stops]
  split
  · rename_i none
    exact absurd (congrArg Prod.fst none) written.1
  · rename_i found
    cases found
    rfl

theorem exponentRead {e : Option (Bool × Text)} {rest : Input} (stops : Stops rest)
    (written : ∀ sign ds, e = some (sign, ds) → Digits ds) :
    exponent ((exponentText e).map some ++ rest) = some (e, rest) := by
  rcases e with _ | ⟨negative, ds⟩
  · rcases rest with _ | ⟨_ | c, more⟩
    · rfl
    · rfl
    · obtain ⟨_, _, small, capital⟩ := stops c rfl
      simp [exponentText, exponent, small, capital]
  · have digits := written negative ds rfl
    have read := exponentDigitsRead negative digits fun c front => (stops c front).1
    cases negative with
    | true => simp [exponentText, exponent, read]
    | false =>
      -- a digit comes first, so no sign is taken
      obtain ⟨d, more, rfl⟩ := List.exists_cons_of_ne_nil digits.1
      have digit := digits.2 d List.mem_cons_self
      have minus : d ≠ '-' := by rintro rfl; contradiction
      have plus : d ≠ '+' := by rintro rfl; contradiction
      simp only [List.map_cons, List.cons_append] at read
      simp [exponentText, exponent, minus, plus, read]

theorem fractionRead {f : Option Text} {rest : Input}
    (stops : ∀ c, rest.head? = some (some c) → c.isDigit = false ∧ c ≠ '.')
    (written : ∀ ds, f = some ds → Digits ds) :
    fraction ((fractionText f).map some ++ rest) = some (f, rest) := by
  rcases f with _ | ds
  · rcases rest with _ | ⟨_ | c, more⟩
    · rfl
    · rfl
    · obtain ⟨_, point⟩ := stops c rfl
      simp [fractionText, fraction, point]
  · obtain ⟨nonempty, all⟩ := written ds rfl
    have read := digitsRead all fun c front => (stops c front).1
    simp only [fractionText, List.map_cons, List.cons_append, fraction, read]

theorem numeralRead {n : Numeral} {rest : Input} (written : n.Written) (stops : Stops rest) :
    numeral n.negative ((n.whole ++ (fractionText n.fraction ++ exponentText n.exponent)).map some ++
      rest) = some (n, rest) := by
  have afterFraction : ∀ c, ((exponentText n.exponent).map some ++ rest).head? = some (some c) →
      c.isDigit = false ∧ c ≠ '.' := by
    intro c front
    cases e : n.exponent with
    | none =>
      rw [e] at front
      obtain ⟨other, point, _⟩ := stops c front
      exact ⟨other, point⟩
    | some part =>
      rw [e] at front
      cases front
      decide
  have afterWhole : ∀ c, ((fractionText n.fraction).map some ++
      ((exponentText n.exponent).map some ++ rest)).head? = some (some c) → c.isDigit = false := by
    intro c front
    cases f : n.fraction with
    | none =>
      rw [f] at front
      exact (afterFraction c front).1
    | some ds =>
      rw [f] at front
      cases front
      decide
  unfold numeral
  simp only [List.map_append, List.append_assoc, wholeRead written afterWhole,
    fractionRead afterFraction written.fraction, exponentRead stops written.exponent, bind,
    Option.bind]

end Reader

end ComponentFile.Json
