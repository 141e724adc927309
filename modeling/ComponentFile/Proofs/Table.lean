import Mathlib.Data.List.Forall2
import ComponentFile.Table

/-! What a table holds for a key after each change. A table is observed through `get?` only, apart
from the order of its keys. -/
namespace ComponentFile.Table
variable {α β : Type} [BEq α]

theorem getNil (key : α) : get? ([] : Table α β) key = none := rfl

theorem getCons (k key : α) (v : β) (rest : Table α β) :
    get? ((k, v) :: rest) key = if k == key then some v else get? rest key := by
  unfold get?
  rw [List.find?_cons]
  cases k == key <;> rfl

theorem containsExact {t : Table α β} {key : α} :
    t.contains key = true ↔ ∃ value, t.get? key = some value := by
  induction t with
  | nil => simp [contains, getNil]
  | cons entry rest ih =>
    rw [getCons]
    unfold contains at ih ⊢
    rw [List.any_cons]
    split
    · rename_i here
      simp [here]
    · rename_i other
      simpa [other] using ih

theorem containsKeys (t : Table α β) (key : α) : t.contains key = t.keys.any (· == key) := by
  simp [contains, keys, Function.comp_def]

theorem keysPutNew (t : Table α β) (key : α) (v : β) : (t.putNew key v).keys =
    if t.keys.any (· == key) then t.keys else t.keys ++ [key] := by
  unfold putNew
  rw [containsKeys]
  split
  · rfl
  · simp [keys]

theorem keysPut (t : Table α β) (key : α) (v : β) : (t.put key v).keys =
    if t.keys.any (· == key) then t.keys else t.keys ++ [key] := by
  induction t with
  | nil => rfl
  | cons entry rest ih =>
    unfold keys at ih ⊢
    rw [put, List.map_cons, List.any_cons]
    split
    · rename_i here
      simp [here]
    · rename_i other
      rw [List.map_cons, ih, Bool.eq_false_iff.mpr other, Bool.false_or]
      split <;> rfl

def mapValues {γ : Type} (f : β → γ) (t : Table α β) : Table α γ :=
  t.map fun entry => (entry.1, f entry.2)

section MapValues
variable {γ : Type} (f : β → γ)

theorem getMapValues (t : Table α β) (key : α) : (t.mapValues f).get? key = (t.get? key).map f := by
  induction t with
  | nil => rfl
  | cons entry rest ih =>
    unfold mapValues at ih ⊢
    rw [List.map_cons, getCons, getCons, ih]
    split <;> rfl

theorem putMapValues (t : Table α β) (key : α) (v : β) :
    (t.mapValues f).put key (f v) = (t.put key v).mapValues f := by
  induction t with
  | nil => rfl
  | cons entry rest ih =>
    unfold mapValues at ih ⊢
    simp only [List.map_cons, put, ih]
    split <;> rfl

theorem eraseMapValues (t : Table α β) (key : α) :
    (t.mapValues f).erase key = (t.erase key).mapValues f := by
  unfold mapValues erase
  rw [List.filter_map]
  rfl

end MapValues

section Filter
variable (p : α → Bool) (t : Table α β) {key : α}

theorem getFilter (alike : ∀ k, (k == key) = true → p k = p key) :
    get? (t.filter fun entry => p entry.1) key = if p key then t.get? key else none := by
  induction t with
  | nil => simp [getNil]
  | cons entry rest ih =>
    rw [List.filter_cons, getCons]
    by_cases here : (entry.1 == key) = true
    · rw [alike _ here, if_pos here]
      split
      · rw [getCons, if_pos here]
      · rename_i out
        rw [ih, if_neg out]
    · rw [if_neg here]
      split
      · rw [getCons, if_neg here, ih]
      · exact ih

theorem putFilter (v : β) (alike : ∀ k, (k == key) = true → p k = p key) (out : p key = false) :
    (t.put key v).filter (fun entry => p entry.1) = t.filter fun entry => p entry.1 := by
  induction t with
  | nil => simp [put, out]
  | cons entry rest ih =>
    simp only [put]
    split
    · rename_i here
      simp [alike _ here, out]
    · rw [List.filter_cons, List.filter_cons, ih]

end Filter

section Equivalence
variable [EquivBEq α]

theorem getPut (t : Table α β) (k key : α) (v : β) :
    (t.put k v).get? key = if k == key then some v else t.get? key := by
  induction t with
  | nil => simp [put, getCons, getNil]
  | cons entry rest ih =>
    simp only [put]
    split
    · rename_i here
      rw [getCons, getCons, BEq.congr_left here]
      split <;> rfl
    · rename_i other
      rw [getCons, getCons, ih]
      split
      · rename_i found
        rw [if_neg fun same => other (BEq.trans found (BEq.symm same))]
      · rfl

theorem getErase (t : Table α β) (k key : α) :
    (t.erase k).get? key = if k == key then none else t.get? key := by
  unfold erase
  rw [getFilter (fun a => !(a == k)) t fun a same => congrArg (!·) (BEq.congr_left same), BEq.comm]
  cases k == key <;> rfl

def Distinct (t : Table α β) : Prop := t.Pairwise fun a b => (a.1 == b.1) = false

omit [EquivBEq α] in
theorem distinctKeys {t : Table α β} :
    t.Distinct ↔ t.keys.Pairwise fun k l => (k == l) = false := by
  rw [keys, List.pairwise_map, Distinct]

theorem keyOfPut {t : Table α β} {k : α} {v : β} {entry : α × β} (member : entry ∈ t.put k v) :
    (entry.1 == k) = true ∧ entry.2 = v ∨ entry ∈ t := by
  induction t with
  | nil =>
    cases List.mem_singleton.mp member
    exact .inl ⟨BEq.rfl, rfl⟩
  | cons first rest ih =>
    simp only [put] at member
    split at member
    · rename_i here
      rcases List.mem_cons.mp member with rfl | later
      · exact .inl ⟨here, rfl⟩
      · exact .inr (List.mem_cons_of_mem _ later)
    · rcases List.mem_cons.mp member with rfl | later
      · exact .inr List.mem_cons_self
      · exact (ih later).imp id (List.mem_cons_of_mem _)

theorem distinctPut {t : Table α β} (distinct : t.Distinct) (k : α) (v : β) :
    (t.put k v).Distinct := by
  induction t with
  | nil => exact List.pairwise_singleton _ _
  | cons first rest ih =>
    obtain ⟨apart, distinct⟩ := List.pairwise_cons.mp distinct
    simp only [put]
    split
    · exact .cons apart distinct
    · rename_i other
      refine .cons (fun entry member => ?_) (ih distinct)
      rcases keyOfPut member with ⟨same, _⟩ | old
      · rw [BEq.congr_right same]
        simpa using other
      · exact apart entry old

omit [EquivBEq α] in
theorem distinctErase {t : Table α β} (distinct : t.Distinct) (k : α) : (t.erase k).Distinct :=
  distinct.filter _

theorem distinctPerm {t u : Table α β} (same : t.Perm u) (distinct : t.Distinct) : u.Distinct :=
  same.pairwise distinct fun apart => by rw [BEq.comm]; exact apart

end Equivalence

variable [LawfulBEq α]

theorem getPutSame (t : Table α β) (key : α) (v : β) : (t.put key v).get? key = some v := by
  rw [getPut, if_pos BEq.rfl]

theorem getPutOther {k key : α} (t : Table α β) (v : β) (different : k ≠ key) :
    (t.put k v).get? key = t.get? key := by
  rw [getPut, if_neg (by simpa using different)]

theorem getEraseSame (t : Table α β) (key : α) : (t.erase key).get? key = none := by
  rw [getErase, if_pos BEq.rfl]

theorem getEraseOther {k key : α} (t : Table α β) (different : k ≠ key) :
    (t.erase k).get? key = t.get? key := by
  rw [getErase, if_neg (by simpa using different)]

section Only

def only (t : Table α β) (key : α) : Table α β := t.filter fun entry => entry.1 == key

theorem getOnlySame (t : Table α β) (key : α) : (t.only key).get? key = t.get? key := by
  unfold only
  rw [getFilter (· == key) t fun a same => BEq.congr_left same, if_pos BEq.rfl]

theorem getOnlyOther {k key : α} (t : Table α β) (different : k ≠ key) :
    (t.only key).get? k = none := by
  unfold only
  rw [getFilter (· == key) t fun a same => BEq.congr_left same, if_neg (by simpa using different)]

theorem putOnlySame (t : Table α β) (key : α) (v : β) :
    (t.put key v).only key = (t.only key).put key v := by
  induction t with
  | nil => simp [put, only]
  | cons entry rest ih =>
    unfold only at ih ⊢
    simp only [put, List.filter_cons]
    split
    · rename_i here
      simp [here, put]
    · rename_i other
      simp [other, ih]

theorem putOnlyOther {k key : α} (t : Table α β) (v : β) (different : k ≠ key) :
    (t.put k v).only key = t.only key :=
  putFilter (· == key) t v (fun _ same => BEq.congr_left same) (by simpa using different)

omit [LawfulBEq α] in
theorem eraseOnlySame (t : Table α β) (key : α) :
    (t.erase key).only key = (t.only key).erase key := by
  unfold only erase
  rw [List.filter_filter, List.filter_filter]
  congr 1
  funext entry
  exact Bool.and_comm _ _

theorem eraseOnlyOther {k key : α} (t : Table α β) (different : k ≠ key) :
    (t.erase k).only key = t.only key := by
  unfold only erase
  rw [List.filter_filter]
  congr 1
  funext entry
  by_cases here : entry.1 = key
  · simp [here, different.symm]
  · simp [here]

theorem onlyOne {t : Table α β} {key : α} {v : β} (distinct : t.Distinct) (member : (key, v) ∈ t) :
    t.only key = [(key, v)] := by
  induction t with
  | nil => contradiction
  | cons entry rest ih =>
    obtain ⟨apart, distinct⟩ := List.pairwise_cons.mp distinct
    unfold only at ih ⊢
    rcases List.mem_cons.mp member with rfl | later
    · have none : rest.filter (fun entry => entry.1 == key) = [] := by
        rw [List.filter_eq_nil_iff]
        intro other inRest same
        have := apart other inRest
        rw [BEq.comm, same] at this
        contradiction
      simp [none]
    · have other : (entry.1 == key) = false := apart _ later
      rw [List.filter_cons, other]
      exact ih distinct later

theorem memberOfGet {t : Table α β} {key : α} {v : β} (found : t.get? key = some v) :
    (key, v) ∈ t := by
  obtain ⟨entry, here, rfl⟩ := Option.map_eq_some_iff.mp found
  have same : entry.1 = key := by simpa using List.find?_some here
  rw [← same]
  exact List.mem_of_find?_eq_some here

theorem onlyOfGet {t : Table α β} (distinct : t.Distinct) (key : α) :
    t.only key = ((t.get? key).map (key, ·)).toList := by
  cases found : t.get? key with
  | some v => exact onlyOne distinct (memberOfGet found)
  | none =>
    refine List.filter_eq_nil_iff.mpr fun entry member same => ?_
    have absent := List.find?_eq_none.mp (Option.map_eq_none_iff.mp found) entry member
    exact absent same

theorem onlyPerm {t u : Table α β} (same : t.Perm u) (distinct : u.Distinct) (key : α) :
    t.only key = u.only key := by
  have entries : (t.only key).Perm (u.only key) := same.filter _
  rw [onlyOfGet distinct] at entries ⊢
  cases found : u.get? key with
  | none =>
    rw [found] at entries
    exact entries.eq_nil
  | some v =>
    rw [found] at entries
    exact entries.eq_singleton

end Only

section Related
variable {γ : Type} {related : α → β → γ → Prop}

def Related (related : α → β → γ → Prop) (t : Table α β) (u : Table α γ) : Prop :=
  List.Forall₂ (fun a b => b.1 = a.1 ∧ related a.1 a.2 b.2) t u

theorem getRelated {t : Table α β} {u : Table α γ} (h : Related related t u) (key : α) :
    Option.Rel (related key) (t.get? key) (u.get? key) := by
  induction h with
  | nil => exact .none
  | @cons a b t u first rest ih =>
    obtain ⟨k, v⟩ := a
    obtain ⟨l, w⟩ := b
    obtain ⟨same, values⟩ := first
    simp only at same values
    subst same
    rw [getCons, getCons]
    split
    · rename_i here
      cases eq_of_beq here
      exact .some values
    · exact ih

omit [BEq α] [LawfulBEq α] in
theorem keysRelated {t : Table α β} {u : Table α γ} (h : Related related t u) : u.keys = t.keys := by
  induction h with
  | nil => rfl
  | cons first rest ih => exact congrArg₂ List.cons first.1 ih

omit [LawfulBEq α] in
theorem distinctRelated {t : Table α β} {u : Table α γ} (h : Related related t u)
    (distinct : t.Distinct) : u.Distinct := by
  rw [distinctKeys] at distinct ⊢
  rw [keysRelated h]
  exact distinct

theorem putRelated {t : Table α β} {u : Table α γ} {key : α} {v : β} {w : γ}
    (h : Related related t u) (here : related key v w) :
    Related related (t.put key v) (u.put key w) := by
  induction h with
  | nil => exact .cons ⟨rfl, here⟩ .nil
  | @cons a b t u first rest ih =>
    obtain ⟨k, x⟩ := a
    obtain ⟨l, y⟩ := b
    obtain ⟨same, values⟩ := first
    simp only at same values
    subst same
    simp only [put]
    split
    · rename_i same
      cases eq_of_beq same
      exact .cons ⟨rfl, here⟩ rest
    · exact .cons ⟨rfl, values⟩ ih

omit [LawfulBEq α] in
theorem eraseRelated {t : Table α β} {u : Table α γ} (h : Related related t u) (key : α) :
    Related related (t.erase key) (u.erase key) := by
  refine List.rel_filter (fun a b same => ?_) h
  simp only [same.1]

end Related

theorem emptyOfGet {t : Table α β} (h : ∀ key, t.get? key = none) : t = [] := by
  cases t with
  | nil => rfl
  | cons entry rest =>
    have := h entry.1
    rw [getCons, if_pos BEq.rfl] at this
    contradiction

end ComponentFile.Table
