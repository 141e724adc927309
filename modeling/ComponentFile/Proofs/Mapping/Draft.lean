import ComponentFile.Proofs.Mapping.Lexicon

/-! Maps that are being built. A number that the draft gave for a text belongs to its index from then
on, so that a mapping that refers to the tables goes on to do so. -/
namespace ComponentFile.MapDraft

def Words (p : Position) : Prop := p.line < Word.size32 ∧ p.column < Word.size32

/- `Drafted b known`: some calls lead to the draft `b`, and those that intern a source returned the
numbers `known`. A mapping may only name one of these as its source. -/
inductive Drafted : MapDraft → List Nat → Prop where
  | empty : Drafted empty []
  | file {b known} (f : Text) (before : Drafted b known) : Drafted (b.withFile f) known
  | source {b known} (t : Text) (before : Drafted b known) :
      Drafted (b.internSource t).1 ((b.internSource t).2 :: known)
  | name {b known} (t : Text) (before : Drafted b known) : Drafted (b.internName t).1 known
  | mapping {b known generated origin source} (name : Option Text) (before : Drafted b known)
      (here : Words generated) (there : Words origin) (returned : source ∈ known) :
      Drafted (b.record generated origin source name) known

def Numbers (l : Lexicon) (i : Nat) : Prop := ∃ t, l.numbers.get? t = some i

structure Refers (sources names : Lexicon) (m : Mapping) : Prop where
  generated : Words m.generated
  origin : Words m.origin
  source : Numbers sources m.source
  name : ∀ n, m.name = some n → Numbers names n

theorem numbersOnward {l later : Lexicon} {i : Nat} (onward : l.Onward later) :
    Numbers l i → Numbers later i := fun ⟨t, found⟩ => ⟨t, onward.numbers t i found⟩

theorem numbersIntern (l : Lexicon) (t : Text) : Numbers (l.intern t).1 (l.intern t).2 :=
  ⟨t, l.internNumber t⟩

theorem refersOnward {sources names sources' names' : Lexicon} {m : Mapping}
    (h : Refers sources names m) (longer : sources.Onward sources') (wider : names.Onward names') :
    Refers sources' names' m :=
  ⟨h.generated, h.origin, numbersOnward longer h.source,
    fun n named => numbersOnward wider (h.name n named)⟩

structure Sound (b : MapDraft) (known : List Nat) : Prop where
  sources : b.sources.Indexed
  names : b.names.Indexed
  returned : ∀ i ∈ known, Numbers b.sources i
  mappings : ∀ m ∈ b.mappings, Refers b.sources b.names m

theorem soundSource {b : MapDraft} {known : List Nat} (t : Text) (h : Sound b known) :
    Sound (b.internSource t).1 ((b.internSource t).2 :: known) := by
  have onward := b.sources.internOnward t
  refine ⟨Lexicon.indexedIntern h.sources t, h.names, ?_, fun m member =>
    refersOnward (h.mappings m member) onward (Lexicon.onwardSame _)⟩
  intro i member
  rcases List.mem_cons.mp member with rfl | old
  · exact numbersIntern b.sources t
  · exact numbersOnward onward (h.returned i old)

theorem soundName {b : MapDraft} {known : List Nat} (t : Text) (h : Sound b known) :
    Sound (b.internName t).1 known :=
  ⟨h.sources, Lexicon.indexedIntern h.names t, h.returned, fun m member =>
    refersOnward (h.mappings m member) (Lexicon.onwardSame _) (b.names.internOnward t)⟩

theorem soundMapping {b : MapDraft} {known : List Nat} {generated origin : Position} {source : Nat}
    (name : Option Text) (h : Sound b known) (here : Words generated) (there : Words origin)
    (returned : source ∈ known) : Sound (b.record generated origin source name) known := by
  have inTable := h.returned source returned
  cases name with
  | none =>
    refine ⟨h.sources, h.names, h.returned, fun m member => ?_⟩
    rcases List.mem_append.mp member with old | new
    · exact h.mappings m old
    · cases List.mem_singleton.mp new
      exact ⟨here, there, inTable, by simp⟩
  | some t =>
    have named := soundName t h
    refine ⟨named.sources, named.names, named.returned, fun m member => ?_⟩
    rcases List.mem_append.mp member with old | new
    · exact named.mappings m old
    · cases List.mem_singleton.mp new
      refine ⟨here, there, inTable, ?_⟩
      rintro n ⟨⟩
      exact numbersIntern b.names t

theorem draftedSound {b : MapDraft} {known : List Nat} (h : Drafted b known) : Sound b known := by
  induction h with
  | empty => exact ⟨Lexicon.indexedEmpty, Lexicon.indexedEmpty, by simp, by simp [empty]⟩
  | file f before ih => exact ⟨ih.sources, ih.names, ih.returned, ih.mappings⟩
  | source t before ih => exact soundSource t ih
  | name t before ih => exact soundName t ih
  | mapping name before here there returned ih => exact soundMapping name ih here there returned

theorem numbersBelow {l : Lexicon} {i : Nat} (indexed : l.Indexed) (given : Numbers l i) :
    i < l.texts.length ∧ i < Word.size32 := by
  obtain ⟨t, found⟩ := given
  exact ⟨Lexicon.numberBelow indexed found, Lexicon.numberWord indexed found⟩

end ComponentFile.MapDraft
