import ComponentFile.Proofs.Text.LineTable
import ComponentFile.Proofs.Text.Places

/-! Byte positions against lines and columns. A line is reached exactly when its start is, so every
position up to the end is on one line and before the next one, and the two ways of naming it go back
and forth without loss and in the same order. -/
namespace ComponentFile.Lines

def Inside (l : Lines) (p : Position) : Prop :=
  ∃ start, l.start? p.line = some start ∧
    (∀ next, l.start? (p.line + 1) = some next → start + p.column < next) ∧
    (l.start? (p.line + 1) = none → start + p.column ≤ l.size)

section Table
variable {t : Text} {x start : Nat} {line : Nat}

theorem startReached (here : (ofText t).start? line = some start) :
    start ≤ x ↔ line ≤ (ofText t).lineAt x := by
  have places := Bisection.frontPlaces (startsFronted t x) here
  rw [startsUpTo, decide_eq_true_iff] at places
  rw [places, Nat.lt_succ_iff]

theorem lineStarts (t : Text) (x : Nat) :
    ∃ start, (ofText t).start? ((ofText t).lineAt x) = some start ∧ start ≤ x := by
  have fewer := (ofText t).starts.countP_le_length (p := (· ≤ x))
  rw [startsUpTo] at fewer
  have here := List.getElem?_eq_getElem (l := (ofText t).starts) (i := (ofText t).lineAt x) fewer
  exact ⟨_, here, (startReached here).mpr (Nat.le_refl _)⟩

theorem nextLineBehind {next : Nat}
    (there : (ofText t).start? ((ofText t).lineAt x + 1) = some next) : x < next := by
  have := startReached (x := x) there
  omega

theorem lineFound (here : (ofText t).start? line = some start) (upTo : start ≤ x)
    (onward : ∀ next, (ofText t).start? (line + 1) = some next → x < next) :
    (ofText t).lineAt x = line := by
  rcases Nat.eq_or_lt_of_le ((startReached here).mp upTo) with same | later
  · exact same.symm
  · -- the next line would have started as well
    obtain ⟨last, there, _⟩ := lineStarts t x
    have inBounds : line + 1 < (ofText t).starts.length :=
      Nat.lt_of_le_of_lt later (List.getElem?_eq_some_iff.mp there).1
    have next := List.getElem?_eq_getElem inBounds
    have behind := onward _ next
    have := (startReached (x := x) next).mpr later
    omega

end Table

section Places
variable {t : Text} {x y : Nat} {p q : Position}

theorem positionFound (inside : x ≤ t.size) :
    ∃ start, (ofText t).start? ((ofText t).lineAt x) = some start ∧ start ≤ x ∧
      (ofText t).position? x = some ⟨(ofText t).lineAt x, x - start⟩ := by
  obtain ⟨start, here, upTo⟩ := lineStarts t x
  refine ⟨start, here, upTo, ?_⟩
  have guard : x ≤ (ofText t).size := inside
  unfold position?
  rw [if_pos guard, here]
  rfl

theorem positionWithin (found : (ofText t).position? x = some p) : x ≤ t.size := by
  unfold position? at found
  split at found
  · assumption
  · contradiction

theorem insideOffset (inside : (ofText t).Inside p) :
    ∃ x, (ofText t).offset? p = some x ∧ x ≤ t.size := by
  obtain ⟨start, here, onward, last⟩ := inside
  refine ⟨start + p.column, ?_, ?_⟩
  · unfold offset?
    rw [here]
    rfl
  · cases there : (ofText t).start? (p.line + 1) with
    | none => exact last there
    | some next =>
      have before := onward next there
      have within := startsWithin (List.mem_of_getElem? there)
      omega

theorem positionExact :
    (ofText t).position? x = some p ↔ (ofText t).Inside p ∧ (ofText t).offset? p = some x := by
  constructor
  · intro found
    have within := positionWithin found
    obtain ⟨start, here, upTo, place⟩ := positionFound within
    cases found.symm.trans place
    have back : start + (x - start) = x := by omega
    refine ⟨⟨start, here, ?_, ?_⟩, ?_⟩
    · intro next there
      rw [back]
      exact nextLineBehind there
    · intro _
      rw [back]
      exact within
    · unfold offset?
      rw [here, Option.map_some, back]
  · rintro ⟨inside, offset⟩
    obtain ⟨_, same, within⟩ := insideOffset inside
    cases offset.symm.trans same
    obtain ⟨start, here, onward, _⟩ := inside
    unfold offset? at offset
    rw [here, Option.map_some, Option.some_inj] at offset
    subst offset
    have line := lineFound here (Nat.le_add_right start p.column) onward
    obtain ⟨start', here', _, place⟩ := positionFound within
    rw [line] at here' place
    cases here.symm.trans here'
    rw [place, Nat.add_sub_cancel_left]

theorem positionOrder (first : (ofText t).position? x = some p)
    (second : (ofText t).position? y = some q) (order : x < y) : p.before q = true := by
  obtain ⟨start, here, upTo, place⟩ := positionFound (positionWithin first)
  obtain ⟨start', here', upTo', place'⟩ := positionFound (positionWithin second)
  cases first.symm.trans place
  cases second.symm.trans place'
  rw [Position.beforeExact]
  have ascends : (ofText t).lineAt x ≤ (ofText t).lineAt y :=
    (startReached here).mp (by omega)
  rcases Nat.lt_or_eq_of_le ascends with less | same
  · exact .inl less
  · rw [same] at here
    cases here.symm.trans here'
    refine .inr ⟨same, ?_⟩
    simp only
    omega

end Places

/- Exactly the positions up to the end have a line and a column, which lead back to them and ascend
with them. Conversely every column inside of a line leads to a position that has this line and
column. -/
theorem positionsBiject (t : Text) :
    (∀ x, ((ofText t).position? x).isSome ↔ x ≤ t.size) ∧
      (∀ x, x ≤ t.size → ((ofText t).position? x).bind (ofText t).offset? = some x) ∧
      (∀ x y p q, (ofText t).position? x = some p → (ofText t).position? y = some q → x < y →
        p.before q = true) ∧
      (∀ p, (ofText t).Inside p →
        ∃ x, x ≤ t.size ∧ (ofText t).offset? p = some x ∧ (ofText t).position? x = some p) ∧
      ∀ x p, (ofText t).position? x = some p → (ofText t).Inside p := by
  refine ⟨fun x => ?_, fun x inside => ?_, fun x y p q => positionOrder, fun p inside => ?_, ?_⟩
  · rw [Option.isSome_iff_exists]
    constructor
    · rintro ⟨p, found⟩
      exact positionWithin found
    · intro inside
      obtain ⟨start, _, _, place⟩ := positionFound inside
      exact ⟨_, place⟩
  · obtain ⟨start, _, _, place⟩ := positionFound inside
    rw [place, Option.bind_some]
    exact (positionExact.mp place).2
  · obtain ⟨x, offset, within⟩ := insideOffset inside
    exact ⟨x, within, offset, positionExact.mpr ⟨inside, offset⟩⟩
  · exact fun x p found => (positionExact.mp found).1

end ComponentFile.Lines
