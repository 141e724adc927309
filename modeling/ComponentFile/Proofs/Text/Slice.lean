import ComponentFile.Text.Basic

/-! Slices by byte positions against cuts of the character list. A position is a boundary exactly
when it is the size of some beginning of the text; slices at boundaries are what stands between. -/
namespace ComponentFile.Text

@[simp] theorem sizeNil : size [] = 0 := rfl

@[simp] theorem sizeCons (c : Char) (t : Text) : size (c :: t) = c.utf8Size + size t := rfl

@[simp] theorem sizeAppend (a b : Text) : size (a ++ b) = size a + size b := by
  induction a with
  | nil => simp
  | cons c rest ih => simp [ih, Nat.add_assoc]

theorem sizePositive {t : Text} (nonempty : t ≠ []) : 0 < size t := by
  cases t with
  | nil => contradiction
  | cons c rest =>
    have := c.utf8Size_pos
    simp only [sizeCons]
    omega

theorem sizeZero {t : Text} (h : size t = 0) : t = [] := by
  by_cases empty : t = []
  · exact empty
  · have := sizePositive empty
    omega

theorem lengthWithin (t : Text) : t.length ≤ size t := by
  induction t with
  | nil => exact Nat.le_refl _
  | cons c rest ih =>
    have := c.utf8Size_pos
    simp only [List.length_cons, sizeCons]
    omega

theorem unitsAppend (a b : Text) : units (a ++ b) = units a + units b := by
  induction a with
  | nil => simp [units]
  | cons c rest ih => simp only [List.cons_append, units, ih, Nat.add_assoc]

theorem cutOrder {a b c d : Text} (same : a ++ b = c ++ d) (order : size a ≤ size c) :
    ∃ between, c = a ++ between ∧ b = between ++ d := by
  rcases List.append_eq_append_iff.mp same with ⟨x, left, right⟩ | ⟨x, left, right⟩
  · exact ⟨x, left, right⟩
  · have empty : x = [] := by
      apply sizeZero
      have := congrArg size left
      simp only [sizeAppend] at this
      omega
    subst empty
    exact ⟨[], by simpa using left.symm, by simpa using right.symm⟩

theorem dropBytesAppend (a b : Text) : dropBytes? (size a) (a ++ b) = some b := by
  induction a with
  | nil => cases b <;> rfl
  | cons c rest ih =>
    have := c.utf8Size_pos
    simp only [List.cons_append, sizeCons, dropBytes?]
    rw [if_neg (by omega), if_pos (by omega), Nat.add_sub_cancel_left, ih]

theorem takeBytesAppend (a b : Text) : takeBytes? (size a) (a ++ b) = some a := by
  induction a with
  | nil => cases b <;> rfl
  | cons c rest ih =>
    have := c.utf8Size_pos
    simp only [List.cons_append, sizeCons, takeBytes?]
    rw [if_neg (by omega), if_pos (by omega), Nat.add_sub_cancel_left, ih]
    rfl

theorem droppedBytes {n : Nat} {t b : Text} (h : dropBytes? n t = some b) :
    ∃ a, t = a ++ b ∧ size a = n := by
  induction t generalizing n with
  | nil =>
    simp only [dropBytes?] at h
    split at h
    · cases h; exact ⟨[], rfl, by simp [*]⟩
    · contradiction
  | cons c rest ih =>
    simp only [dropBytes?] at h
    split at h
    · cases h; exact ⟨[], rfl, by simp [*]⟩
    · split at h
      · obtain ⟨a, rfl, sizes⟩ := ih h
        exact ⟨c :: a, rfl, by simp only [sizeCons]; omega⟩
      · contradiction

theorem takenBytes {n : Nat} {t a : Text} (h : takeBytes? n t = some a) :
    ∃ b, t = a ++ b ∧ size a = n := by
  induction t generalizing n a with
  | nil =>
    simp only [takeBytes?] at h
    split at h
    · cases h; exact ⟨[], rfl, by simp [*]⟩
    · contradiction
  | cons c rest ih =>
    simp only [takeBytes?] at h
    split at h
    · cases h; exact ⟨c :: rest, rfl, by simp [*]⟩
    · split at h
      · obtain ⟨taken, inner, rfl⟩ := Option.map_eq_some_iff.mp h
        obtain ⟨b, rfl, sizes⟩ := ih inner
        exact ⟨b, rfl, by simp only [sizeCons]; omega⟩
      · contradiction

theorem sliceExact {t middle : Text} {start stop : Nat} :
    slice? t start stop = some middle ↔
      ∃ before after, t = before ++ middle ++ after ∧ size before = start ∧
        start + size middle = stop := by
  unfold slice?
  constructor
  · intro h
    split at h
    · obtain ⟨rest, dropped, taken⟩ := Option.bind_eq_some_iff.mp h
      obtain ⟨before, rfl, left⟩ := droppedBytes dropped
      obtain ⟨after, rfl, right⟩ := takenBytes taken
      exact ⟨before, after, by simp, left, by omega⟩
    · contradiction
  · rintro ⟨before, after, rfl, rfl, rfl⟩
    rw [if_pos (by omega), List.append_assoc, dropBytesAppend, Nat.add_sub_cancel_left]
    exact takeBytesAppend middle after

theorem sliceEnds {t middle : Text} {start stop : Nat} (found : slice? t start stop = some middle) :
    stop ≤ size t := by
  obtain ⟨before, after, rfl, atStart, atStop⟩ := sliceExact.mp found
  rw [sizeAppend, sizeAppend]
  omega

theorem sliceMiddle (before middle after : Text) :
    slice? (before ++ middle ++ after) (size before) (size before + size middle) = some middle :=
  sliceExact.mpr ⟨before, after, rfl, rfl, rfl⟩

theorem dropBytesBehind (a t : Text) (n : Nat) :
    dropBytes? (size a + n) (a ++ t) = dropBytes? n t := by
  induction a with
  | nil => rw [sizeNil, Nat.zero_add, List.nil_append]
  | cons c rest ih =>
    have := c.utf8Size_pos
    have left : c.utf8Size + size rest + n - c.utf8Size = size rest + n := by omega
    simp only [List.cons_append, sizeCons, dropBytes?]
    rw [if_neg (by omega), if_pos (by omega), left, ih]

theorem sliceBehind (a t : Text) (start stop : Nat) :
    slice? (a ++ t) (size a + start) (size a + stop) = slice? t start stop := by
  unfold slice?
  rw [dropBytesBehind, Nat.add_sub_add_left]
  simp only [Nat.add_le_add_iff_left]

theorem sliceMore {t middle : Text} {start stop : Nat} (more : Text)
    (h : slice? t start stop = some middle) : slice? (t ++ more) start stop = some middle := by
  obtain ⟨before, after, rfl, place, upTo⟩ := sliceExact.mp h
  exact sliceExact.mpr ⟨before, after ++ more, by simp, place, upTo⟩

def Boundary (t : Text) (n : Nat) : Prop := ∃ a b, t = a ++ b ∧ size a = n

theorem sliceBetween {t : Text} {start stop : Nat} (left : Boundary t start)
    (right : Boundary t stop) (order : start ≤ stop) : ∃ middle, slice? t start stop = some middle := by
  obtain ⟨a, b, rfl, rfl⟩ := left
  obtain ⟨c, d, same, rfl⟩ := right
  obtain ⟨between, rfl, rfl⟩ := cutOrder same order
  exact ⟨between, sliceExact.mpr ⟨a, d, by simp, rfl, by simp⟩⟩

end ComponentFile.Text
