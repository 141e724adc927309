import ComponentFile.Proofs.Mapping.Segments
import ComponentFile.Proofs.Outcome

/-! What reading mappings can give: every mapping that is found refers to the tables and has
numbers of 32 bits, whatever the text. -/
namespace ComponentFile.Segments

theorem indexFits {total : Int} {what : Text} {a : Nat} (h : index total what = .ok a) :
    a < Word.size32 := by
  unfold index at h
  split at h
  · rename_i fits
    cases h
    have inside := Word.fits32Exact.mp fits
    omega
  · contradiction

theorem referenceFits {total : Int} {count : Nat} {what : Text} {a : Nat}
    (h : reference total count what = .ok a) : a < count ∧ a < Word.size32 := by
  obtain ⟨i, found, h⟩ := bindOk h
  split at h
  · rename_i known
    cases h
    exact ⟨known, indexFits found⟩
  · contradiction

section Found
variable {limits : Limits} {line : Nat} {column column' : Int} {t t' : Totals}

/- The mapping `m` of a segment, by the sums that the segment leaves. A name that is not given does
not move its sum. -/
structure Summed (limits : Limits) (line : Nat) (column' : Int) (t t' : Totals) (m : Mapping) :
    Prop where
  place : m.generated.line = line
  source : ∃ d, accumulate t.source d "source index" = .ok t'.source
  line : ∃ d, accumulate t.line d "original line" = .ok t'.line
  column : ∃ d, accumulate t.column d "original column" = .ok t'.column
  name : t'.name = t.name ∨ ∃ d, accumulate t.name d "name index" = .ok t'.name
  generated : index column' "generated column" = .ok m.generated.column
  originLine : index t'.line "original line" = .ok m.origin.line
  originColumn : index t'.column "original column" = .ok m.origin.column
  referred : reference t'.source limits.sources "source index" = .ok m.source
  named : ∀ n, m.name = some n → reference t'.name limits.names "name index" = .ok n

theorem segmentSummed {text : Text} {found : Option Mapping}
    (h : segment limits line column t text = .ok (found, column', t')) :
    (∃ d, accumulate column d "generated column" = .ok column') ∧
      (found = none ∧ t' = t ∨ ∃ m, found = some m ∧ Summed limits line column' t t' m) := by
  obtain ⟨fields, -, h⟩ := bindOk h
  obtain ⟨moved, column, h⟩ := bindOk h
  rcases fields with _ | ⟨first, _ | ⟨second, _ | ⟨third, _ | ⟨fourth, more⟩⟩⟩⟩
  · contradiction
  · cases h
    exact ⟨⟨_, column⟩, .inl ⟨rfl, rfl⟩⟩
  · contradiction
  · contradiction
  · simp only at h
    split at h
    · contradiction
    · obtain ⟨source, sources, h⟩ := bindOk h
      obtain ⟨originLine, lines, h⟩ := bindOk h
      obtain ⟨originColumn, columns, h⟩ := bindOk h
      -- with and without a name the checks are the same
      rcases more with _ | ⟨delta, rest⟩
      all_goals
        obtain ⟨name, names, h⟩ := bindOk h
        obtain ⟨generatedColumn, generated, h⟩ := bindOk h
        obtain ⟨foundLine, here, h⟩ := bindOk h
        obtain ⟨foundColumn, there, h⟩ := bindOk h
        obtain ⟨foundSource, known, h⟩ := bindOk h
        obtain ⟨foundName, named, h⟩ := bindOk h
        cases h
        refine ⟨⟨_, column⟩, .inr ⟨_, rfl, rfl, ⟨_, sources⟩, ⟨_, lines⟩, ⟨_, columns⟩, ?_, generated,
          here, there, known, ?_⟩⟩
      · cases names
        exact .inl rfl
      · cases named
        exact nofun
      · exact .inr ⟨_, names⟩
      · intro n same
        cases read : reference name limits.names "name index" with
        | error e => rw [read] at named; contradiction
        | ok i =>
          rw [read] at named
          cases named
          cases same
          rfl

theorem segmentFits {text : Text} {found : Option Mapping} (word : line < Word.size32)
    (h : segment limits line column t text = .ok (found, column', t')) :
    ∀ m ∈ found, Fits limits m := by
  obtain ⟨-, ⟨rfl, -⟩ | ⟨m, rfl, summed⟩⟩ := segmentSummed h
  · exact nofun
  · rintro m ⟨⟩
    exact ⟨summed.place ▸ word, indexFits summed.generated, indexFits summed.originLine,
      indexFits summed.originColumn, referenceFits summed.referred,
      fun n named => referenceFits (summed.named n named)⟩

theorem decodeLineFits {pieces : List Text} {found : List Mapping} (word : line < Word.size32)
    (h : decodeLine limits line column t pieces = .ok (found, t')) :
    ∀ m ∈ found, Fits limits m := by
  induction pieces generalizing column t found with
  | nil => cases h; simp
  | cons text rest ih =>
    cases text with
    | nil =>
      rw [decodeLineEmpty] at h
      exact ih h
    | cons c more =>
      simp only [decodeLine] at h
      obtain ⟨⟨first, moved, sums⟩, read, h⟩ := bindOk h
      obtain ⟨⟨later, last⟩, onward, h⟩ := bindOk h
      cases h
      intro m member
      rcases List.mem_append.mp member with here | there
      · exact segmentFits word read m (Option.mem_toList.mp here)
      · exact ih onward m there

theorem decodeLinesFits {lines : List Text} {found : List Mapping}
    (h : decodeLines limits line t lines = .ok found) : ∀ m ∈ found, Fits limits m := by
  induction lines generalizing line t found with
  | nil => cases h; simp
  | cons text rest ih =>
    obtain ⟨⟨here, sums⟩, read, h⟩ := bindOk h
    obtain ⟨later, onward, h⟩ := bindOk h
    cases h
    intro m member
    rcases List.mem_append.mp member with first | more
    · exact decodeLineFits (Nat.mod_lt _ (by decide)) read m first
    · exact ih onward m more

end Found

theorem decodeFits {limits : Limits} {text : Text} {ms : List Mapping}
    (h : decode limits text = .ok ms) : ∀ m ∈ ms, Fits limits m := decodeLinesFits h

end ComponentFile.Segments
