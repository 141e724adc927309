import Mathlib.Data.List.Forall2

/-! Lists whose items are related one to one, in order. -/
namespace ComponentFile
variable {α β : Type} {related : α → β → Prop} {as : List α} {bs : List β}

theorem relatedZip (h : List.Forall₂ related as bs) :
    List.Forall₂ (fun a b => (a, b) ∈ as.zip bs ∧ related a b) as bs :=
  List.forall₂_iff_zip.mpr ⟨h.length_eq, fun member => ⟨member, List.forall₂_zip h member⟩⟩

theorem relatedLeft (h : List.Forall₂ related as bs) {a : α} (member : a ∈ as) :
    ∃ b ∈ bs, related a b := by
  obtain ⟨i, inBounds, rfl⟩ := List.mem_iff_getElem.mp member
  have bound : i < bs.length := by rwa [← h.length_eq]
  exact ⟨bs[i], List.getElem_mem bound, h.get inBounds bound⟩

theorem relatedRight (h : List.Forall₂ related as bs) {b : β} (member : b ∈ bs) :
    ∃ a ∈ as, related a b :=
  relatedLeft h.flip member

theorem pairwiseRelated {p : α → α → Prop} {q : β → β → Prop}
    (transfer : ∀ a a' b b', related a b → related a' b' → p a a' → q b b')
    (h : List.Forall₂ related as bs) (pairs : as.Pairwise p) : bs.Pairwise q := by
  induction h with
  | nil => exact .nil
  | @cons a b as bs first rest ih =>
    obtain ⟨front, later⟩ := List.pairwise_cons.mp pairs
    refine .cons (fun b' member => ?_) (ih later)
    obtain ⟨a', inAs, second⟩ := relatedRight rest member
    exact transfer a a' b b' first second (front a' inAs)

end ComponentFile
