import ComponentFile.Proofs.Bisection
import ComponentFile.Proofs.Mapping.RoundTrip

/-! The mapping in force at a position. Because a map is in ascending order, however it was made, the
mappings that begin at or before a position are a front part of it. The last of these is the last
mapping on the line that does not begin behind the column, if there is one on the line at all. -/
namespace ComponentFile.SourceMap

def Reaches (p : Position) (m : Mapping) : Prop :=
  m.generated.line = p.line ∧ m.generated.column ≤ p.column

instance (p : Position) : DecidablePred (Reaches p) := fun _ => instDecidableAnd

def bisected? (m : SourceMap) (p : Position) : Option Mapping :=
  match Bisection.point (·.generated.atMost p) m.mappings with
  | 0 => none
  | i + 1 => (m.mappings[i]?).filter (·.generated.line == p.line)

inductive Made : SourceMap → Prop where
  | built (b : MapDraft) : Made b.finish
  | read {text m} (document : ofJson text = .ok m) : Made m

section Order
variable {ms : List Mapping} {m : SourceMap} {p : Position}

theorem madeAscending (made : Made m) :
    m.mappings.Pairwise fun a b => a.generated.atMost b.generated = true := by
  cases made with
  | built b => exact sortedAscending b.mappings
  | read document => exact (ofJsonFormed document).ascending

theorem ascendingFronted
    (ascending : ms.Pairwise fun a b => a.generated.atMost b.generated = true) (p : Position) :
    Bisection.Fronted (·.generated.atMost p) ms :=
  ascending.imp fun before onward => Position.atMostTrans before onward

theorem reachesExact {a : Mapping} :
    Reaches p a ↔ a.generated.line = p.line ∧ a.generated.atMost p = true := by
  rw [Reaches, Position.atMostExact]
  omega

/- Behind the last mapping of the front nothing is in question, and if it is on an earlier line, so are
all before it. -/
theorem lastReaches (ascending : ms.Pairwise fun a b => a.generated.atMost b.generated = true)
    (front : ∀ a ∈ ms, a.generated.atMost p = true) :
    (ms.filter (·.generated.line == p.line)).getLast? =
      ms.getLast?.filter (·.generated.line == p.line) := by
  rcases List.eq_nil_or_concat ms with rfl | ⟨before, last, rfl⟩
  · rfl
  · rw [List.concat_eq_append, List.pairwise_append] at ascending
    rw [List.concat_eq_append] at front ⊢
    rw [List.getLast?_concat, List.filter_append]
    by_cases here : last.generated.line = p.line
    · simp [here, Option.filter_some]
    · have below := Position.atMostLine (front last (by simp))
      have off : before.filter (·.generated.line == p.line) = [] := by
        rw [List.filter_eq_nil_iff]
        intro a member
        have := Position.atMostLine (ascending.2.2 a member last (by simp))
        rw [beq_iff_eq]
        omega
      simp [here, off, Option.filter_some]

theorem coveringLast (ascending : m.mappings.Pairwise fun a b => a.generated.atMost b.generated = true) :
    m.covering? p = (m.mappings.filter (Reaches p)).getLast? := by
  have front := Bisection.takeWhileFront (ascendingFronted ascending p)
  have reached : m.mappings.filter (Reaches p) =
      (m.mappings.filter (·.generated.atMost p)).filter (·.generated.line == p.line) := by
    rw [List.filter_filter]
    congr 1
    funext a
    rw [Bool.eq_iff_iff, decide_eq_true_iff, reachesExact, Bool.and_eq_true, beq_iff_eq]
  unfold covering?
  rw [front, reached, lastReaches (ascending.filter _)]
  exact fun a member => (List.mem_filter.mp member).2

theorem bisectedCovering
    (ascending : m.mappings.Pairwise fun a b => a.generated.atMost b.generated = true) :
    m.bisected? p = m.covering? p := by
  unfold covering? bisected?
  rw [Bisection.lastOfFront (ascendingFronted ascending p)]
  cases Bisection.point (·.generated.atMost p) m.mappings with
  | zero => rfl
  | succ i => rfl

end Order

/- In every map that is built or read, the mapping in force at a position is the last one, in stored
order, of those that begin on its line and not behind its column, and there is none only if no mapping
does. Halving the list finds the same mapping. -/
theorem lookupScans {m : SourceMap} (made : Made m) (p : Position) :
    m.covering? p = (m.mappings.filter (Reaches p)).getLast? ∧
      (m.covering? p = none ↔ ∀ a ∈ m.mappings, ¬ Reaches p a) ∧
      m.bisected? p = m.covering? p := by
  have ascending := madeAscending made
  have last := coveringLast (p := p) ascending
  refine ⟨last, ?_, bisectedCovering ascending⟩
  rw [last, List.getLast?_eq_none_iff, List.filter_eq_nil_iff]
  simp only [decide_eq_true_eq]

theorem scatteredFound :
    let b : MapDraft := ⟨none, ⟨["a.vue"], [("a.vue", 0)]⟩, ⟨["x"], [("x", 0)]⟩, [⟨⟨2, 4⟩, ⟨0, 0⟩, 0, none⟩, ⟨⟨0, 7⟩, ⟨0, 1⟩, 0, none⟩,
      ⟨⟨2, 4⟩, ⟨9, 9⟩, 0, some 0⟩]⟩
    Made b.finish ∧ b.finish.covering? ⟨2, 5⟩ = some ⟨⟨2, 4⟩, ⟨9, 9⟩, 0, some 0⟩ ∧
      (∀ a ∈ b.finish.mappings, ¬ Reaches ⟨1, 8⟩ a) ∧
      b.finish.bisected? ⟨2, 3⟩ = none := by
  intro b
  have stored : b.finish.mappings = [⟨⟨0, 7⟩, ⟨0, 1⟩, 0, none⟩, ⟨⟨2, 4⟩, ⟨0, 0⟩, 0, none⟩,
      ⟨⟨2, 4⟩, ⟨9, 9⟩, 0, some 0⟩] := by
    simp [b, MapDraft.finish, sortMappings, List.mergeSort, List.MergeSort.Internal.splitInTwo,
      Position.atMost]
  have made : Made b.finish := .built b
  refine ⟨made, ?_, ?_, ?_⟩
  · rw [(lookupScans made ⟨2, 5⟩).1, stored]
    decide
  · rw [← (lookupScans made ⟨1, 8⟩).2.1, covering?, stored]
    decide
  · rw [(lookupScans made ⟨2, 3⟩).2.2, covering?, stored]
    decide

end ComponentFile.SourceMap
