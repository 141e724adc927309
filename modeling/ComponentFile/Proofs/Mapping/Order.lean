import Mathlib.Data.List.Forall2
import ComponentFile.Mapping.Basic
import ComponentFile.Proofs.Text.Places

/-! The order in which a map keeps its mappings. They ascend by generated position, and those of one
position stand as they stood before. The same holds of anything else that is put in order by a position,
so what is said of each mapping can be put in order along with the mappings. -/
namespace ComponentFile

namespace Position

theorem atMostTrans {a b c : Position} (first : a.atMost b = true) (second : b.atMost c = true) :
    a.atMost c = true := by
  rw [atMostExact] at first second ⊢
  omega

theorem atMostLine {a b : Position} (h : a.atMost b = true) : a.line ≤ b.line := by
  rw [atMostExact] at h
  omega

end Position

section Sorted
variable {α β : Type} (key : α → Position)

def sortBy (as : List α) : List α := as.mergeSort fun a b => (key a).atMost (key b)

theorem keyTrans (a b c : α) (first : (key a).atMost (key b) = true)
    (second : (key b).atMost (key c) = true) : (key a).atMost (key c) = true :=
  Position.atMostTrans first second

theorem keyTotal (a b : α) : ((key a).atMost (key b) || (key b).atMost (key a)) = true := by
  rw [Bool.or_eq_true, Position.atMostExact, Position.atMostExact]
  omega

theorem sortByAscending (as : List α) :
    (sortBy key as).Pairwise fun a b => (key a).atMost (key b) = true :=
  List.pairwise_mergeSort (keyTrans key) (keyTotal key) as

theorem sortByStable (as : List α) (p : Position) :
    (sortBy key as).filter (key · = p) = as.filter (key · = p) := by
  have level : (as.filter (key · = p)).Pairwise fun a b => (key a).atMost (key b) = true := by
    refine List.pairwise_of_forall_mem_list fun a first b second => ?_
    have here := of_decide_eq_true (List.mem_filter.mp first).2
    have there := of_decide_eq_true (List.mem_filter.mp second).2
    rw [here, there, Position.atMostExact]
    omega
  -- items of one position ascend as they are, so sorting keeps their order
  have kept : (as.filter (key · = p)).Sublist (sortBy key as) :=
    List.sublist_mergeSort (keyTrans key) (keyTotal key) level List.filter_sublist
  have inside := kept.filter (key · = p)
  rw [List.filter_filter] at inside
  simp only [Bool.and_self] at inside
  exact (inside.eq_of_length ((List.mergeSort_perm as _).filter _).length_eq.symm).symm

theorem sortByRelated {key : α → Position} {key' : β → Position} {related : α → β → Prop}
    {as : List α} {bs : List β} (h : List.Forall₂ related as bs)
    (alike : ∀ a b, related a b → key a = key' b) :
    List.Forall₂ related (sortBy key as) (sortBy key' bs) := by
  have left : (as.zip bs).map (·.1) = as := List.map_fst_zip (Nat.le_of_eq h.length_eq)
  have right : (as.zip bs).map (·.2) = bs := List.map_snd_zip (Nat.le_of_eq h.length_eq.symm)
  have same : ∀ p ∈ as.zip bs, key p.1 = key' p.2 := fun p member =>
    alike _ _ (List.forall₂_zip h member)
  have first : (sortBy (fun p => key p.1) (as.zip bs)).map (·.1) = sortBy key as := by
    conv_rhs => rw [← left]
    exact List.map_mergeSort fun _ _ _ _ => rfl
  have second : (sortBy (fun p => key p.1) (as.zip bs)).map (·.2) = sortBy key' bs := by
    conv_rhs => rw [← right]
    refine List.map_mergeSort fun p here q there => ?_
    rw [← same p here, ← same q there]
  rw [← first, ← second, List.forall₂_map_left_iff, List.forall₂_map_right_iff, List.forall₂_same]
  exact fun p member => List.forall₂_zip h (List.mem_mergeSort.mp member)

end Sorted

theorem SourceMap.sortedAscending (ms : List Mapping) :
    (sortMappings ms).Pairwise fun a b => a.generated.atMost b.generated = true :=
  sortByAscending Mapping.generated ms

end ComponentFile
