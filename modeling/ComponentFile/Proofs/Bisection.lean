import ComponentFile.Text.Basic

/-! Lists with a property that holds of a front part and of nothing behind it. In an ordered list this
is so of everything up to a bound. The end of the front is found by halving the range in which it
lies, and it is the number of items with the property. -/
namespace ComponentFile.Bisection
variable {α : Type} {holds : α → Bool} {items : List α}

def Fronted (holds : α → Bool) (items : List α) : Prop :=
  items.Pairwise fun a b => holds b = true → holds a = true

def between (holds : α → Bool) (items : List α) (low high : Nat) : Nat :=
  if low < high then
    if (items[(low + high) / 2]?).any holds then between holds items ((low + high) / 2 + 1) high
    else between holds items low ((low + high) / 2)
  else low
termination_by high - low

def point (holds : α → Bool) (items : List α) : Nat := between holds items 0 items.length

theorem noneBehind {a : α} {rest : List α} (front : Fronted holds (a :: rest))
    (stops : ¬ holds a = true) : rest.filter holds = [] := by
  rw [List.filter_eq_nil_iff]
  intro b member has
  exact stops ((List.pairwise_cons.mp front).1 b member has)

theorem frontPlaces (front : Fronted holds items) {i : Nat} {a : α} (here : items[i]? = some a) :
    holds a = true ↔ i < items.countP holds := by
  induction items generalizing i with
  | nil => simp at here
  | cons first rest ih =>
    have onward := (List.pairwise_cons.mp front).2
    by_cases has : holds first = true
    · rw [List.countP_cons_of_pos has]
      cases i with
      | zero =>
        cases here
        simp [has]
      | succ i =>
        rw [ih onward here]
        omega
    · have behind := noneBehind front has
      rw [List.countP_cons_of_neg has, List.countP_eq_length_filter, behind]
      cases i with
      | zero =>
        cases here
        simp [has]
      | succ i =>
        have later := List.filter_eq_nil_iff.mp behind a (List.mem_of_getElem? here)
        simpa using later

theorem takeWhileFront (front : Fronted holds items) :
    items.takeWhile holds = items.filter holds := by
  induction items with
  | nil => rfl
  | cons first rest ih =>
    by_cases has : holds first = true
    · rw [List.takeWhile_cons_of_pos has, List.filter_cons_of_pos has,
        ih (List.pairwise_cons.mp front).2]
    · rw [List.takeWhile_cons_of_neg has, List.filter_cons_of_neg has, noneBehind front has]

theorem betweenExact (front : Fronted holds items) {low high : Nat}
    (lower : low ≤ items.countP holds) (upper : items.countP holds ≤ high)
    (inside : high ≤ items.length) : between holds items low high = items.countP holds := by
  fun_induction between holds items low high with
  | case1 low high wide has ih =>
    obtain ⟨a, here, has⟩ := (Option.any_eq_true _ _).mp has
    have := (frontPlaces front here).mp has
    exact ih (by omega) upper inside
  | case2 low high wide lacks ih =>
    have bounded : (low + high) / 2 < items.length := by omega
    have here := List.getElem?_eq_getElem bounded
    rw [here, Option.any_some, frontPlaces front here] at lacks
    exact ih lower (by omega) (by omega)
  | case3 low high narrow => omega

theorem pointExact (front : Fronted holds items) : point holds items = items.countP holds :=
  betweenExact front (Nat.zero_le _) List.countP_le_length (Nat.le_refl _)

theorem lastOfFront (front : Fronted holds items) :
    (items.takeWhile holds).getLast? =
      if point holds items = 0 then none else items[point holds items - 1]? := by
  have size : (items.takeWhile holds).length = items.countP holds := by
    rw [takeWhileFront front, List.countP_eq_length_filter]
  have whole : items.takeWhile holds = items.take (items.countP holds) := by
    rw [← size]
    exact List.prefix_iff_eq_take.mp (List.takeWhile_prefix holds)
  rw [whole, pointExact front, List.getLast?_take]
  split
  · rfl
  · have := items.countP_le_length (p := holds)
    rw [List.getElem?_eq_getElem (by omega), Option.some_or]

end ComponentFile.Bisection
