/-! Computations that may fail. One that succeeds has succeeded in each of its steps, and one that
fails has failed in one of them. -/
namespace ComponentFile
variable {ε δ α β : Type} {x : Except ε α}

theorem bindOk {f : α → Except ε β} {b : β} (h : (x >>= f) = .ok b) :
    ∃ a, x = .ok a ∧ f a = .ok b := by
  cases x with
  | error e => contradiction
  | ok a => exact ⟨a, rfl, h⟩

def FailsOnly (p : ε → Prop) (x : Except ε α) : Prop := ∀ e, x = .error e → p e

section FailsOnly
variable {p : ε → Prop}

theorem failsOk (a : α) : FailsOnly p (.ok a : Except ε α) := fun _ failed => by contradiction

theorem failsBind {f : α → Except ε β} (here : FailsOnly p x) (onward : ∀ a, FailsOnly p (f a)) :
    FailsOnly p (x >>= f) := by
  intro e failed
  cases x with
  | error other => cases failed; exact here e rfl
  | ok a => exact onward a e failed

theorem failsAs {f : δ → ε} (like : ∀ e, p (f e)) (x : Except δ α) : FailsOnly p (x.mapError f) := by
  intro e failed
  cases x with
  | error other => cases failed; exact like other
  | ok a => contradiction

theorem failsMap (f : α → β) (here : FailsOnly p x) : FailsOnly p (x.map f) := by
  intro e failed
  cases x with
  | error other => cases failed; exact here e rfl
  | ok a => contradiction

theorem failsFold {f : β → α → Except ε β} (each : ∀ b a, FailsOnly p (f b a)) (items : List α)
    (b : β) : FailsOnly p (items.foldlM f b) := by
  induction items generalizing b with
  | nil => exact failsOk _
  | cons a rest ih =>
    rw [List.foldlM_cons]
    exact failsBind (each b a) ih

theorem failsEach {f : α → Except ε β} (each : ∀ a, FailsOnly p (f a)) (items : List α) :
    FailsOnly p (items.mapM f) := by
  induction items with
  | nil => exact failsOk _
  | cons a rest ih =>
    rw [List.mapM_cons]
    exact failsBind (each a) fun b => failsBind ih fun _ => failsOk _

end FailsOnly
end ComponentFile
