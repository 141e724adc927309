import ComponentFile.Mapping.Draft
import ComponentFile.Proofs.Table

/-! Texts and their numbers. The index of a lexicon gives each text the place at which the table
holds it, cut down to a word. So table and index are inverse to each other as long as no place is
beyond a word, and no longer. -/
namespace ComponentFile.Lexicon

structure Indexed (l : Lexicon) : Prop where
  distinct : l.texts.Nodup
  numbered : ∀ t i, l.numbers.get? t = some i ↔
    ∃ place, l.texts[place]? = some t ∧ i = place % Word.size32

def Inverse (l : Lexicon) : Prop := ∀ t i, l.numbers.get? t = some i ↔ l.texts[i]? = some t

structure Onward (l later : Lexicon) : Prop where
  texts : l.texts <+: later.texts
  numbers : ∀ t i, l.numbers.get? t = some i → later.numbers.get? t = some i

theorem onwardSame (l : Lexicon) : Onward l l := ⟨List.prefix_refl _, fun _ _ => id⟩

theorem onwardTrans {a b c : Lexicon} (first : Onward a b) (second : Onward b c) : Onward a c :=
  ⟨first.texts.trans second.texts, fun t i found => second.numbers t i (first.numbers t i found)⟩

section Intern
variable {l : Lexicon} {t : Text} {i : Nat}

theorem internKnown (known : l.numbers.get? t = some i) : l.intern t = (l, i) := by
  rw [intern, known]

theorem internNew (new : l.numbers.get? t = none) :
    l.intern t = (⟨l.texts ++ [t], l.numbers.put t (l.texts.length % Word.size32)⟩,
      l.texts.length % Word.size32) := by
  rw [intern, new]

theorem internNumber (l : Lexicon) (t : Text) :
    (l.intern t).1.numbers.get? t = some (l.intern t).2 := by
  cases found : l.numbers.get? t with
  | some i => rw [internKnown found, found]
  | none =>
    rw [internNew found]
    exact Table.getPutSame _ _ _

theorem internOnward (l : Lexicon) (t : Text) : Onward l (l.intern t).1 := by
  cases found : l.numbers.get? t with
  | some i =>
    rw [internKnown found]
    exact onwardSame l
  | none =>
    rw [internNew found]
    refine ⟨List.prefix_append _ _, fun s i old => ?_⟩
    have different : t ≠ s := by
      rintro rfl
      rw [found] at old
      contradiction
    exact (Table.getPutOther _ _ different).trans old

theorem internLength (l : Lexicon) (t : Text) :
    (l.intern t).1.texts.length ≤ l.texts.length + 1 := by
  cases found : l.numbers.get? t with
  | some i =>
    rw [internKnown found]
    exact Nat.le_succ _
  | none => simp [internNew found]

end Intern

theorem placeOnce {table : List Text} {t : Text} {i j : Nat} (distinct : table.Nodup)
    (here : table[i]? = some t) (there : table[j]? = some t) : i = j :=
  (List.getElem?_inj (List.getElem?_eq_some_iff.mp here).1 distinct).mp (here.trans there.symm)

theorem placeWord {table : List Text} {t : Text} {place : Nat} (small : table.length ≤ Word.size32)
    (here : table[place]? = some t) : place % Word.size32 = place :=
  Nat.mod_eq_of_lt (Nat.lt_of_lt_of_le (List.getElem?_eq_some_iff.mp here).1 small)

theorem placedSmall {table : List Text} (distinct : table.Nodup)
    (placed : ∀ t ∈ table, ∃ i, i < Word.size32 ∧ table[i]? = some t) :
    table.length ≤ Word.size32 := by
  by_contra beyond
  have inBounds : Word.size32 < table.length := Nat.lt_of_not_le beyond
  obtain ⟨i, word, here⟩ := placed _ (List.getElem_mem inBounds)
  have same := placeOnce distinct here (List.getElem?_eq_getElem inBounds)
  exact absurd word (Nat.not_lt_of_le (Nat.le_of_eq same.symm))

theorem placeConcat {table : List Text} {t s : Text} {place : Nat} :
    (table ++ [t])[place]? = some s ↔ table[place]? = some s ∨ place = table.length ∧ t = s := by
  rcases Nat.lt_trichotomy place table.length with inside | rfl | beyond
  · simp [List.getElem?_append_left inside, Nat.ne_of_lt inside]
  · simp
  · have outside : (table ++ [t]).length ≤ place := by
      rw [List.length_append, List.length_singleton]
      exact beyond
    rw [List.getElem?_eq_none outside, List.getElem?_eq_none (Nat.le_of_lt beyond)]
    simp [Nat.ne_of_gt beyond]

theorem foundOnward {table later : List Text} {i : Nat} {t : Text} (onward : table <+: later)
    (found : table[i]? = some t) : later[i]? = some t := by
  obtain ⟨more, rfl⟩ := onward
  rw [List.getElem?_append_left (List.getElem?_eq_some_iff.mp found).1]
  exact found

section Indexed
variable {l : Lexicon} {t : Text} {i : Nat}

theorem numberWord (indexed : l.Indexed) (found : l.numbers.get? t = some i) : i < Word.size32 := by
  obtain ⟨place, -, rfl⟩ := (indexed.numbered t i).mp found
  exact Nat.mod_lt _ (by decide)

theorem numberBelow (indexed : l.Indexed) (found : l.numbers.get? t = some i) :
    i < l.texts.length := by
  obtain ⟨place, here, rfl⟩ := (indexed.numbered t i).mp found
  exact Nat.lt_of_le_of_lt (Nat.mod_le _ _) (List.getElem?_eq_some_iff.mp here).1

theorem unnumbered (indexed : l.Indexed) : l.numbers.get? t = none ↔ t ∉ l.texts := by
  rw [Option.eq_none_iff_forall_ne_some]
  constructor
  · intro none member
    obtain ⟨place, here⟩ := List.mem_iff_getElem?.mp member
    exact none _ ((indexed.numbered t _).mpr ⟨place, here, rfl⟩)
  · intro absent i found
    obtain ⟨place, here, -⟩ := (indexed.numbered t i).mp found
    exact absent (List.mem_of_getElem? here)

theorem indexedEmpty : empty.Indexed := ⟨List.nodup_nil, by simp [empty, Table.getNil]⟩

theorem indexedIntern (indexed : l.Indexed) (t : Text) : (l.intern t).1.Indexed := by
  cases found : l.numbers.get? t with
  | some i =>
    rw [internKnown found]
    exact indexed
  | none =>
    have absent := (unnumbered indexed).mp found
    rw [internNew found]
    refine ⟨List.nodup_append.mpr ⟨indexed.distinct, List.pairwise_singleton _ t, ?_⟩, fun s i => ?_⟩
    · rintro a member b last rfl
      rw [List.mem_singleton] at last
      exact absent (last ▸ member)
    · simp only [placeConcat]
      by_cases same : t = s
      · subst same
        rw [Table.getPutSame, Option.some_inj]
        constructor
        · rintro rfl
          exact ⟨_, .inr ⟨rfl, rfl⟩, rfl⟩
        · rintro ⟨place, old | ⟨rfl, -⟩, rfl⟩
          · exact absurd (List.mem_of_getElem? old) absent
          · rfl
      · rw [Table.getPutOther _ _ same, indexed.numbered]
        constructor
        · rintro ⟨place, old, cut⟩
          exact ⟨place, .inl old, cut⟩
        · rintro ⟨place, old | ⟨-, new⟩, cut⟩
          · exact ⟨place, old, cut⟩
          · exact absurd new same

/- Numbers are places exactly up to the size of a word: the text at the first place beyond it has the
number of the first text. -/
theorem inverseExact (indexed : l.Indexed) : l.Inverse ↔ l.texts.length ≤ Word.size32 := by
  constructor
  · intro inverse
    refine placedSmall indexed.distinct fun t member => ?_
    obtain ⟨place, here⟩ := List.mem_iff_getElem?.mp member
    have found := (indexed.numbered t _).mpr ⟨place, here, rfl⟩
    exact ⟨_, numberWord indexed found, (inverse t _).mp found⟩
  · intro small t i
    rw [indexed.numbered]
    constructor
    · rintro ⟨place, here, rfl⟩
      rwa [placeWord small here]
    · intro here
      exact ⟨i, here, (placeWord small here).symm⟩

theorem internFound (indexed : l.Indexed) (t : Text)
    (small : (l.intern t).1.texts.length ≤ Word.size32) :
    (l.intern t).1.texts[(l.intern t).2]? = some t :=
  ((inverseExact (indexedIntern indexed t)).mpr small t _).mp (internNumber l t)

end Indexed
end ComponentFile.Lexicon
