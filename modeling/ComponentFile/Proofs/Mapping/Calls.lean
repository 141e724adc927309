import Mathlib.Data.List.Perm.Subperm
import ComponentFile.Proofs.Mapping.Draft
import ComponentFile.Proofs.Mapping.Order
import ComponentFile.Proofs.Related

/-! A map that is built by calls, in any order of them. The tables hold what was passed in, in the
order of its first use, and every mapping is kept. A number is for the same text from the call that
returns it on. That text is also at this place of the table, unless a table grows beyond what a word
can number. -/
namespace ComponentFile.MapDraft

structure Given where
  generated : Position
  origin : Position
  source : Nat
  name : Option Text
  deriving DecidableEq, Repr

inductive Call where
  | source (t : Text)
  | name (t : Text)
  | mapping (g : Given)
  deriving DecidableEq, Repr

namespace Call

def source? : Call → Option Text
  | .source t => some t
  | _ => none

def name? : Call → Option Text
  | .source _ => none
  | .name t => some t
  | .mapping g => g.name

def mapping? : Call → Option Given
  | .mapping g => some g
  | _ => none

end Call

def call (b : MapDraft) : Call → MapDraft × Option Nat
  | .source t => ((b.internSource t).1, some (b.internSource t).2)
  | .name t => ((b.internName t).1, some (b.internName t).2)
  | .mapping g => (b.record g.generated g.origin g.source g.name, none)

def follow (b : MapDraft) : List Call → MapDraft × List (Option Nat)
  | [] => (b, [])
  | c :: rest =>
      let (next, answer) := b.call c
      let (last, answers) := follow next rest
      (last, answer :: answers)

structure FirstUses (used table : List Text) : Prop where
  distinct : table.Nodup
  same : ∀ t, t ∈ table ↔ t ∈ used
  order : table.Pairwise fun s t => used.idxOf s < used.idxOf t

def Indexes (l : Lexicon) (i : Nat) (t : Text) : Prop := l.numbers.get? t = some i

def Places (table : List Text) (i : Nat) (t : Text) : Prop := table[i]? = some t

structure Says (name : Nat → Text → Prop) (m : Mapping) (g : Given) : Prop where
  generated : m.generated = g.generated
  origin : m.origin = g.origin
  source : m.source = g.source
  name : Option.Rel name m.name g.name

inductive Answers (source name : Nat → Text → Prop) : Call → Option Nat → Prop where
  | source {t i} (known : source i t) : Answers source name (.source t) (some i)
  | name {t i} (known : name i t) : Answers source name (.name t) (some i)
  | mapping (g : Given) : Answers source name (.mapping g) none

structure Sorted (given stored : List Given) : Prop where
  rearranged : stored.Perm given
  ascending : stored.Pairwise fun a b => a.generated.atMost b.generated = true
  stable : ∀ p, stored.filter (·.generated = p) = given.filter (·.generated = p)

structure Means (source name : Nat → Text → Prop) (calls : List Call)
    (returned : List (Option Nat)) (mappings : List Mapping) : Prop where
  answers : List.Forall₂ (Answers source name) calls returned
  mappings : ∃ stored, List.Forall₂ (Says name) mappings stored ∧
    Sorted (calls.filterMap Call.mapping?) stored

section Tables
variable {used : List Text} {l : Lexicon} {t : Text}

def taken (l : Lexicon) : Option Text → Lexicon
  | some t => (l.intern t).1
  | none => l

theorem takenOnward (l : Lexicon) (passed : Option Text) : l.Onward (taken l passed) := by
  cases passed with
  | none => exact Lexicon.onwardSame l
  | some t => exact l.internOnward t

theorem takenIndexed (indexed : l.Indexed) (passed : Option Text) : (taken l passed).Indexed := by
  cases passed with
  | none => exact indexed
  | some t => exact Lexicon.indexedIntern indexed t

theorem firstUsesEmpty : FirstUses [] [] := ⟨.nil, by simp, .nil⟩

theorem firstUsesIntern (indexed : l.Indexed) (h : FirstUses used l.texts) (t : Text) :
    FirstUses (used ++ [t]) (l.intern t).1.texts := by
  have place {s : Text} (member : s ∈ l.texts) : (used ++ [t]).idxOf s = used.idxOf s :=
    List.idxOf_append_of_mem ((h.same s).mp member)
  have order : l.texts.Pairwise fun s s' => (used ++ [t]).idxOf s < (used ++ [t]).idxOf s' := by
    refine h.order.imp_of_mem fun left right before => ?_
    rw [place left, place right]
    exact before
  have distinct := (Lexicon.indexedIntern indexed t).distinct
  cases found : l.numbers.get? t with
  | some i =>
    have known : t ∈ used := by
      by_contra unused
      rw [← h.same, ← Lexicon.unnumbered indexed, found] at unused
      contradiction
    rw [Lexicon.internKnown found] at distinct ⊢
    refine ⟨distinct, fun s => ?_, order⟩
    rw [h.same, List.mem_append, List.mem_singleton]
    constructor
    · exact .inl
    · rintro (old | rfl)
      · exact old
      · exact known
  | none =>
    have unused : t ∉ used := by
      rw [← h.same, ← Lexicon.unnumbered indexed]
      exact found
    rw [Lexicon.internNew found] at distinct ⊢
    refine ⟨distinct, fun s => ?_, ?_⟩
    · rw [List.mem_append, List.mem_append, h.same]
    · rw [List.pairwise_append]
      refine ⟨order, List.pairwise_singleton _ t, ?_⟩
      rintro s member s' last
      rw [List.mem_singleton] at last
      rw [last, place member, List.idxOf_append_of_notMem unused]
      exact Nat.lt_of_lt_of_le (List.idxOf_lt_length_iff.mpr ((h.same s).mp member))
        (Nat.le_add_right _ _)

theorem firstUsesTaken (indexed : l.Indexed) (h : FirstUses used l.texts) (passed : Option Text) :
    FirstUses (used ++ passed.toList) (taken l passed).texts := by
  cases passed with
  | none => simpa [taken] using h
  | some t => exact firstUsesIntern indexed h t

end Tables

section Meaning
variable {source name source' name' : Nat → Text → Prop}

theorem saysAs (onward : ∀ i t, name i t → name' i t) {m : Mapping} {g : Given}
    (h : Says name m g) : Says name' m g := by
  obtain ⟨generated, origin, source, number⟩ := m
  obtain ⟨generated', origin', source', text⟩ := g
  obtain ⟨here, there, from_, named⟩ := h
  refine ⟨here, there, from_, ?_⟩
  cases named with
  | none => exact .none
  | some known => exact .some (onward _ _ known)

theorem answersAs (onward : ∀ i t, source i t → source' i t)
    (wider : ∀ i t, name i t → name' i t) {c : Call} {answer : Option Nat}
    (h : Answers source name c answer) : Answers source' name' c answer := by
  cases h with
  | source known => exact .source (onward _ _ known)
  | name known => exact .name (wider _ _ known)
  | mapping g => exact .mapping g

theorem meansAs (onward : ∀ i t, source i t → source' i t) (wider : ∀ i t, name i t → name' i t)
    {calls : List Call} {returned : List (Option Nat)} {mappings : List Mapping}
    (h : Means source name calls returned mappings) : Means source' name' calls returned mappings := by
  obtain ⟨stored, told, sorted⟩ := h.mappings
  exact ⟨h.answers.imp fun _ _ => answersAs onward wider, stored,
    told.imp fun _ _ => saysAs wider, sorted⟩

theorem sortedGiven {ms : List Mapping} {given : List Given} (h : List.Forall₂ (Says name) ms given) :
    ∃ stored, List.Forall₂ (Says name) (SourceMap.sortMappings ms) stored ∧ Sorted given stored :=
  ⟨sortBy Given.generated given, sortByRelated h fun _ _ told => told.generated,
    List.mergeSort_perm given _, sortByAscending _ given, sortByStable _ given⟩

end Meaning

section Calls
variable {b : MapDraft} {done : List Call}

theorem callSources (b : MapDraft) (c : Call) :
    (b.call c).1.sources = taken b.sources c.source? := by
  rcases c with t | t | ⟨_, _, _, _ | t⟩ <;> rfl

theorem callNames (b : MapDraft) (c : Call) : (b.call c).1.names = taken b.names c.name? := by
  rcases c with t | t | ⟨_, _, _, _ | t⟩ <;> rfl

theorem callMappings (b : MapDraft) (c : Call) :
    ∃ new, (b.call c).1.mappings = b.mappings ++ new ∧
      List.Forall₂ (Says (Indexes (b.call c).1.names)) new c.mapping?.toList := by
  rcases c with t | t | ⟨generated, origin, source, _ | t⟩
  · exact ⟨[], (List.append_nil _).symm, .nil⟩
  · exact ⟨[], (List.append_nil _).symm, .nil⟩
  · exact ⟨[_], rfl, .cons ⟨rfl, rfl, rfl, .none⟩ .nil⟩
  · exact ⟨[_], rfl, .cons ⟨rfl, rfl, rfl, .some (b.names.internNumber t)⟩ .nil⟩

theorem callAnswers (b : MapDraft) (c : Call) :
    Answers (Indexes (b.call c).1.sources) (Indexes (b.call c).1.names) c (b.call c).2 := by
  cases c with
  | source t => exact .source (b.sources.internNumber t)
  | name t => exact .name (b.names.internNumber t)
  | mapping g => exact .mapping g

theorem indexesOnward {l later : Lexicon} (onward : l.Onward later) (i : Nat) (t : Text) :
    Indexes l i t → Indexes later i t := onward.numbers t i

structure Holds (done : List Call) (b : MapDraft) : Prop where
  sources : FirstUses (done.filterMap Call.source?) b.sources.texts
  names : FirstUses (done.filterMap Call.name?) b.names.texts
  indexed : b.sources.Indexed ∧ b.names.Indexed
  mappings : List.Forall₂ (Says (Indexes b.names)) b.mappings (done.filterMap Call.mapping?)

theorem filterMapConcat {α β : Type} (f : α → Option β) (done : List α) (a : α) :
    (done ++ [a]).filterMap f = done.filterMap f ++ (f a).toList := by
  rw [List.filterMap_append]
  cases h : f a <;> simp [h]

theorem holdsCall (h : Holds done b) (c : Call) : Holds (done ++ [c]) (b.call c).1 := by
  obtain ⟨new, mappings, told⟩ := callMappings b c
  have sources := callSources b c
  have names := callNames b c
  refine ⟨?_, ?_, ?_, ?_⟩
  · rw [filterMapConcat, sources]
    exact firstUsesTaken h.indexed.1 h.sources _
  · rw [filterMapConcat, names]
    exact firstUsesTaken h.indexed.2 h.names _
  · rw [sources, names]
    exact ⟨takenIndexed h.indexed.1 _, takenIndexed h.indexed.2 _⟩
  · rw [filterMapConcat, mappings]
    refine List.rel_append (h.mappings.imp fun _ _ => saysAs ?_) told
    rw [names]
    exact indexesOnward (takenOnward b.names _)

theorem holdsFollow (h : Holds done b) (calls : List Call) :
    Holds (done ++ calls) (b.follow calls).1 ∧ (b.follow calls).1.file = b.file ∧
      b.sources.Onward (b.follow calls).1.sources ∧ b.names.Onward (b.follow calls).1.names ∧
      List.Forall₂ (Answers (Indexes (b.follow calls).1.sources) (Indexes (b.follow calls).1.names))
        calls (b.follow calls).2 := by
  induction calls generalizing b done with
  | nil =>
    rw [List.append_nil]
    exact ⟨h, rfl, Lexicon.onwardSame _, Lexicon.onwardSame _, .nil⟩
  | cons c rest ih =>
    obtain ⟨holds, file, sources, names, answers⟩ := ih (holdsCall h c)
    have here := answersAs (indexesOnward sources) (indexesOnward names) (callAnswers b c)
    rw [callSources] at sources
    rw [callNames] at names
    rw [List.append_assoc] at holds
    refine ⟨holds, file.trans ?_, Lexicon.onwardTrans (takenOnward _ _) sources,
      Lexicon.onwardTrans (takenOnward _ _) names, .cons here answers⟩
    rcases c with t | t | ⟨_, _, _, _ | t⟩ <;> rfl

end Calls

section Numbering
variable {sources names : Lexicon} {calls : List Call} {returned : List (Option Nat)}
  {mappings : List Mapping}

theorem answersOnce {c : Call} {answer answer' : Option Nat}
    (first : Answers (Indexes sources) (Indexes names) c answer)
    (second : Answers (Indexes sources) (Indexes names) c answer') : answer = answer' := by
  cases first with
  | source here =>
    cases second with
    | source there => exact here.symm.trans there
  | name here =>
    cases second with
    | name there => exact here.symm.trans there
  | mapping g =>
    cases second
    rfl

theorem sourcesPlaced (indexed : sources.Indexed)
    (means : Means (Indexes sources) (Indexes names) calls returned mappings)
    (placed : Means (Places sources.texts) (Places names.texts) calls returned mappings) {t : Text}
    (passed : t ∈ calls.filterMap Call.source?) :
    ∃ i, i < Word.size32 ∧ Places sources.texts i t := by
  obtain ⟨c, member, same⟩ := List.mem_filterMap.mp passed
  obtain ⟨answer, -, pair, here⟩ := relatedLeft (relatedZip placed.answers) member
  have number := List.forall₂_zip means.answers pair
  cases here with
  | source place =>
    cases same
    cases number with
    | source known => exact ⟨_, Lexicon.numberWord indexed known, place⟩
  | name place => contradiction
  | mapping g => contradiction

theorem saysWord (indexed : names.Indexed) {m : Mapping} {g : Given} (h : Says (Indexes names) m g)
    {n : Nat} (number : m.name = some n) : n < Word.size32 := by
  have known := h.name
  rw [number] at known
  cases text : g.name with
  | none => rw [text] at known; contradiction
  | some t =>
    rw [text] at known
    obtain ⟨known⟩ := known
    exact Lexicon.numberWord indexed known

theorem mappedPlaced (indexed : names.Indexed)
    (means : Means (Indexes sources) (Indexes names) calls returned mappings)
    (placed : Means (Places sources.texts) (Places names.texts) calls returned mappings) {g : Given}
    (member : g ∈ calls.filterMap Call.mapping?) {t : Text} (named : g.name = some t) :
    ∃ i, i < Word.size32 ∧ Places names.texts i t := by
  obtain ⟨stored, told, sorted⟩ := placed.mappings
  obtain ⟨others, numbers, -⟩ := means.mappings
  obtain ⟨m, inMap, here⟩ := relatedRight told (sorted.rearranged.mem_iff.mpr member)
  obtain ⟨g', -, there⟩ := relatedLeft numbers inMap
  have place := here.name
  rw [named] at place
  cases number : m.name with
  | none => rw [number] at place; contradiction
  | some n =>
    rw [number] at place
    obtain ⟨place⟩ := place
    exact ⟨n, saysWord indexed there number, place⟩

theorem namesPlaced (indexed : names.Indexed)
    (means : Means (Indexes sources) (Indexes names) calls returned mappings)
    (placed : Means (Places sources.texts) (Places names.texts) calls returned mappings) {t : Text}
    (passed : t ∈ calls.filterMap Call.name?) :
    ∃ i, i < Word.size32 ∧ Places names.texts i t := by
  obtain ⟨c, member, same⟩ := List.mem_filterMap.mp passed
  cases c with
  | source s => contradiction
  | name s =>
    cases same
    obtain ⟨answer, -, pair, here⟩ := relatedLeft (relatedZip placed.answers) member
    have number := List.forall₂_zip means.answers pair
    cases here with
    | name place =>
      cases number with
      | name known => exact ⟨_, Lexicon.numberWord indexed known, place⟩
  | mapping g =>
    exact mappedPlaced indexed means placed (List.mem_filterMap.mpr ⟨_, member, rfl⟩) same

end Numbering

def Numberable (b : MapDraft) : Prop :=
  b.sources.texts.length ≤ Word.size32 ∧ b.names.texts.length ≤ Word.size32

theorem fewUses {used table : List Text} (h : FirstUses used table) : table.length ≤ used.length :=
  (List.subperm_of_subset h.distinct fun t member => (h.same t).mp member).length_le

structure Built (calls : List Call) (returned : List (Option Nat)) (b : MapDraft) : Prop where
  sources : FirstUses (calls.filterMap Call.source?) b.finish.sources
  names : FirstUses (calls.filterMap Call.name?) b.finish.names
  indexed : b.sources.Indexed ∧ b.names.Indexed
  means : Means (Indexes b.sources) (Indexes b.names) calls returned b.finish.mappings
  alike : ∀ c i j, (c, i) ∈ calls.zip returned → (c, j) ∈ calls.zip returned → i = j

section Built
variable {calls : List Call} {returned : List (Option Nat)} {b : MapDraft}

/- A call adds a text at most. -/
theorem numberableFew (h : Built calls returned b) (few : calls.length ≤ Word.size32) :
    b.Numberable :=
  ⟨Nat.le_trans (fewUses h.sources) (Nat.le_trans (List.length_filterMap_le _ _) few),
    Nat.le_trans (fewUses h.names) (Nat.le_trans (List.length_filterMap_le _ _) few)⟩

theorem inverseExact (h : Built calls returned b) :
    b.sources.Inverse ∧ b.names.Inverse ↔ b.Numberable := by
  rw [Lexicon.inverseExact h.indexed.1, Lexicon.inverseExact h.indexed.2]
  rfl

theorem placesExact (h : Built calls returned b) :
    Means (Places b.finish.sources) (Places b.finish.names) calls returned b.finish.mappings ↔
      b.Numberable := by
  constructor
  · intro placed
    exact ⟨Lexicon.placedSmall h.indexed.1.distinct fun t member =>
        sourcesPlaced h.indexed.1 h.means placed ((h.sources.same t).mp member),
      Lexicon.placedSmall h.indexed.2.distinct fun t member =>
        namesPlaced h.indexed.2 h.means placed ((h.names.same t).mp member)⟩
  · intro small
    obtain ⟨sources, names⟩ := (inverseExact h).mpr small
    exact meansAs (fun i t => (sources t i).mp) (fun i t => (names t i).mp) h.means

end Built

/- Whatever calls build a map, its tables hold the texts that were passed in, each once and in the
order of first use, and the mappings are those that were added, in stable order. Equal calls return
the same. As long as words can number the tables, and no longer, table and index are inverse to each
other, and what a call returned or a mapping kept has its text at this place of the table. Words can
number the tables of as many calls as there are words. -/
theorem builtByCalls (file : Option Text) (calls : List Call) :
    let last := (follow ⟨file, .empty, .empty, []⟩ calls).1
    let returned := (follow ⟨file, .empty, .empty, []⟩ calls).2
    last.finish.file = file ∧ Built calls returned last ∧
      (last.sources.Inverse ∧ last.names.Inverse ↔ last.Numberable) ∧
      (Means (Places last.finish.sources) (Places last.finish.names) calls returned
        last.finish.mappings ↔ last.Numberable) ∧
      (calls.length ≤ Word.size32 → last.Numberable) := by
  intro last returned
  have start : Holds [] ⟨file, .empty, .empty, []⟩ :=
    ⟨firstUsesEmpty, firstUsesEmpty, ⟨Lexicon.indexedEmpty, Lexicon.indexedEmpty⟩, .nil⟩
  obtain ⟨holds, kept, -, -, answers⟩ := holdsFollow start calls
  have built : Built calls returned last := by
    refine ⟨holds.sources, holds.names, holds.indexed, ⟨answers, sortedGiven holds.mappings⟩, ?_⟩
    intro c i j here there
    exact answersOnce (List.forall₂_zip answers here) (List.forall₂_zip answers there)
  exact ⟨kept, built, inverseExact built, placesExact built, numberableFew built⟩

example : (follow .empty [.name "b", .mapping ⟨⟨1, 0⟩, ⟨0, 0⟩, 0, some "a"⟩, .source "b", .name "a",
    .name "b"]).2 = [some 0, none, some 0, some 1, some 0] := by decide

end ComponentFile.MapDraft
