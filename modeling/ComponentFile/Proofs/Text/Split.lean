import ComponentFile.Text.Basic

/-! Pieces between separators. What holds no separator goes to the front of the first piece. -/
namespace ComponentFile.Text

section Split
variable {α : Type} [DecidableEq α] {sep : α}

theorem splitSome (sep : α) (t : List α) : ∃ piece more, splitAt sep t = piece :: more := by
  cases t with
  | nil => exact ⟨[], [], rfl⟩
  | cons c rest =>
    rw [splitAt]
    split
    · exact ⟨[], _, rfl⟩
    · split
      · exact ⟨[c], [], rfl⟩
      · rename_i piece more _
        exact ⟨c :: piece, more, rfl⟩

@[simp] theorem splitSeparator (rest : List α) : splitAt sep (sep :: rest) = [] :: splitAt sep rest := by
  rw [splitAt, if_pos rfl]

theorem splitOther {c : α} {rest piece : List α} {more : List (List α)} (other : c ≠ sep)
    (tail : splitAt sep rest = piece :: more) : splitAt sep (c :: rest) = (c :: piece) :: more := by
  rw [splitAt, if_neg other, tail]

theorem splitAfter {a b piece : List α} {more : List (List α)} (clean : ∀ c ∈ a, c ≠ sep)
    (tail : splitAt sep b = piece :: more) : splitAt sep (a ++ b) = (a ++ piece) :: more := by
  induction a with
  | nil => exact tail
  | cons c rest ih =>
    have onward := ih fun d member => clean d (List.mem_cons_of_mem c member)
    exact splitOther (clean c List.mem_cons_self) onward

theorem splitAlone {t : List α} (clean : ∀ c ∈ t, c ≠ sep) : splitAt sep t = [t] := by
  have whole : splitAt sep (t ++ []) = [t ++ []] := splitAfter clean rfl
  rwa [List.append_nil] at whole

theorem splitAppend (a b : List α) : splitAt sep (a ++ sep :: b) = splitAt sep a ++ splitAt sep b := by
  induction a with
  | nil => exact splitSeparator b
  | cons c rest ih =>
    rw [List.cons_append]
    by_cases here : c = sep
    · rw [here, splitSeparator, splitSeparator, ih, List.cons_append]
    · obtain ⟨piece, more, tail⟩ := splitSome sep rest
      rw [tail, List.cons_append] at ih
      rw [splitOther here ih, splitOther here tail, List.cons_append]

theorem splitClean {t piece : List α} (member : piece ∈ splitAt sep t) : ∀ c ∈ piece, c ≠ sep := by
  induction t generalizing piece with
  | nil =>
    cases List.mem_singleton.mp member
    simp
  | cons c rest ih =>
    by_cases here : c = sep
    · rw [here, splitSeparator] at member
      rcases List.mem_cons.mp member with rfl | later
      · simp
      · exact ih later
    · obtain ⟨first, more, tail⟩ := splitSome sep rest
      rw [tail] at ih
      rw [splitOther here tail] at member
      rcases List.mem_cons.mp member with rfl | later
      · exact List.forall_mem_cons.mpr ⟨here, ih List.mem_cons_self⟩
      · exact ih (List.mem_cons_of_mem _ later)

end Split

end ComponentFile.Text
