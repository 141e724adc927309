import Mathlib.Data.List.TakeWhile
import Mathlib.Order.Monotone.Basic
import ComponentFile.Proofs.Text.LineBreaks

/-! Texts with their line feeds written in another way: as a pair of carriage return and line feed,
or as a lone carriage return. Searches that treat all blanks alike find the same in both, at places
that correspond, and both have the same number of line breaks. -/
namespace ComponentFile
namespace Text

def spelled (ending : Text) (c : Char) : Text := if c = '\n' then ending else [c]

def respelled (ending t : Text) : Text := t.flatMap (spelled ending)

def lineEndings : List Text := ["\n", "\r\n", "\r"]

def blanks : Text := [' ', '\t', '\n', '\x0c', '\r']

theorem blankExact {c : Char} : isBlank c = true ↔ c ∈ blanks := by
  simp [isBlank, blanks, or_assoc]

theorem blankEvery {p : Char → Bool} (every : blanks.all p = true) {c : Char}
    (here : isBlank c = true) : p c = true :=
  List.all_eq_true.mp every c (blankExact.mp here)

theorem solidText {t : Text} (solid : t.any isBlank = false) : ∀ c ∈ t, isBlank c = false := by
  simpa using solid

structure BlankEnding (ending : Text) : Prop where
  nonempty : ending ≠ []
  blank : ∀ c ∈ ending, isBlank c = true

theorem lineEndingBlank {ending : Text} (known : ending ∈ lineEndings) : BlankEnding ending := by
  have every : ∀ e ∈ lineEndings, e ≠ [] ∧ e.all isBlank = true := by decide
  obtain ⟨nonempty, blank⟩ := every ending known
  exact ⟨nonempty, List.all_eq_true.mp blank⟩

section Spelling
variable {ending : Text}

@[simp] theorem respelledNil : respelled ending [] = [] := rfl

theorem respelledCons (c : Char) (t : Text) :
    respelled ending (c :: t) = spelled ending c ++ respelled ending t := rfl

@[simp] theorem respelledAppend (a b : Text) :
    respelled ending (a ++ b) = respelled ending a ++ respelled ending b := List.flatMap_append

theorem spelledOther {c : Char} (other : c ≠ '\n') : spelled ending c = [c] := if_neg other

theorem spelledFeed : spelled ending '\n' = ending := if_pos rfl

theorem respelledOther {c : Char} (t : Text) (other : c ≠ '\n') :
    respelled ending (c :: t) = c :: respelled ending t := by
  rw [respelledCons, spelledOther other, List.singleton_append]

theorem respelledClean {t : Text} (clean : '\n' ∉ t) : respelled ending t = t := by
  induction t with
  | nil => rfl
  | cons c rest ih =>
    obtain ⟨other, later⟩ := not_or.mp (mt List.mem_cons.mpr clean)
    rw [respelledOther rest (Ne.symm other), ih later]

theorem respelledSame (t : Text) : respelled "\n" t = t := by
  have same : spelled "\n" = fun c => [c] := by
    funext c
    by_cases feed : c = '\n'
    · rw [feed]; rfl
    · exact spelledOther feed
  unfold respelled
  rw [same, List.flatMap_singleton']

theorem solidOther {c : Char} (solid : isBlank c = false) : c ≠ '\n' := by
  rintro rfl
  exact absurd solid (by decide)

theorem respelledSolid {t : Text} (solid : ∀ c ∈ t, isBlank c = false) : respelled ending t = t :=
  respelledClean fun member => absurd (solid '\n' member) (by decide)

theorem spelledBlank (blank : BlankEnding ending) {c : Char} (here : isBlank c = true) :
    ∀ d ∈ spelled ending c, isBlank d = true := by
  by_cases feed : c = '\n'
  · rw [feed, spelledFeed]
    exact blank.blank
  · rw [spelledOther feed]
    intro d member
    cases List.mem_singleton.mp member
    exact here

theorem spelledGrows (blank : BlankEnding ending) (c : Char) :
    c.utf8Size ≤ (spelled ending c).size := by
  by_cases feed : c = '\n'
  · subst feed
    rw [spelledFeed]
    exact sizePositive blank.nonempty
  · rw [spelledOther feed, sizeCons, sizeNil, Nat.add_zero]

theorem respelledStart (blank : BlankEnding ending) (t : Text) :
    t = [] ∨ (∃ c rest, t = c :: rest ∧ isBlank c = false ∧
        respelled ending t = c :: respelled ending rest) ∨
      ∃ c rest d more, t = c :: rest ∧ isBlank c = true ∧ isBlank d = true ∧
        respelled ending t = d :: more := by
  cases t with
  | nil => exact .inl rfl
  | cons c rest =>
    right
    cases here : isBlank c with
    | false => exact .inl ⟨c, rest, rfl, here, respelledOther rest (solidOther here)⟩
    | true =>
      have spelling := spelledBlank blank here
      have grows := spelledGrows blank c
      rw [respelledCons]
      cases written : spelled ending c with
      | nil =>
        rw [written] at grows
        exact absurd grows (Nat.not_le.mpr c.utf8Size_pos)
      | cons d more =>
        rw [written] at spelling
        exact .inr ⟨c, rest, d, _, rfl, here, spelling d List.mem_cons_self, rfl⟩

theorem respelledEmpty (blank : BlankEnding ending) {t : Text} :
    respelled ending t = [] ↔ t = [] := by
  rcases respelledStart blank t with
    rfl | ⟨c, rest, rfl, _, same⟩ | ⟨c, rest, d, more, rfl, _, _, same⟩
  · simp
  · simp [same]
  · simp [same]

theorem respelledHead (blank : BlankEnding ending) (t : Text) {p : Char → Bool} {b : Bool}
    (uniform : ∀ c, isBlank c = true → p c = b) :
    (respelled ending t).head?.map p = t.head?.map p := by
  rcases respelledStart blank t with
    rfl | ⟨c, rest, rfl, _, same⟩ | ⟨c, rest, d, more, rfl, first, other, same⟩
  · rfl
  · simp [same]
  · simp [same, uniform c first, uniform d other]

end Spelling

section Search
variable {ending : Text} (blank : BlankEnding ending)
include blank

theorem takeWhileRespelled {p : Char → Bool} {b : Bool}
    (uniform : ∀ c, isBlank c = true → p c = b) (t : Text) :
    (respelled ending t).takeWhile p = respelled ending (t.takeWhile p) ∧
      (respelled ending t).dropWhile p = respelled ending (t.dropWhile p) := by
  induction t with
  | nil => exact ⟨rfl, rfl⟩
  | cons c rest ih =>
    have head := respelledHead blank (c :: rest) uniform
    rw [List.takeWhile_cons, List.dropWhile_cons]
    cases here : p c with
    | true =>
      have all : ∀ d ∈ spelled ending c, p d = true := by
        by_cases feed : c = '\n'
        · subst feed
          intro d member
          rw [uniform d (spelledBlank blank rfl d member), ← uniform '\n' rfl, here]
        · rw [spelledOther feed]
          simpa using here
      rw [respelledCons, List.takeWhile_append_of_pos all, List.dropWhile_append_of_pos all]
      simp [respelledCons, ih.1, ih.2]
    | false =>
      -- the other spelling stops at its first character as well
      rw [List.head?_cons, Option.map_some, here] at head
      obtain ⟨d, first, stops⟩ := Option.map_eq_some_iff.mp head
      obtain ⟨more, same⟩ := List.head?_eq_some_iff.mp first
      simp [same, stops]

omit blank in
theorem takeWhileSolid {p : Char → Bool} (stops : ∀ c, isBlank c = true → p c = false) (t : Text) :
    respelled ending (t.takeWhile p) = t.takeWhile p := by
  apply respelledSolid
  intro c member
  have taken := List.mem_takeWhile_imp member
  cases here : isBlank c with
  | true => rw [stops c here] at taken; contradiction
  | false => rfl

theorem prefixRespelled {needle : Text} (solid : ∀ c ∈ needle, isBlank c = false) (t : Text) :
    needle.isPrefixOf (respelled ending t) = needle.isPrefixOf t := by
  induction needle generalizing t with
  | nil => simp
  | cons n rest ih =>
    have later := ih fun c member => solid c (List.mem_cons_of_mem n member)
    have apart {c : Char} (here : isBlank c = true) : (n == c) = false := by
      rw [beq_eq_false_iff_ne]
      rintro rfl
      exact absurd here (by simp [solid n List.mem_cons_self])
    rcases respelledStart blank t with
      rfl | ⟨c, tail, rfl, _, same⟩ | ⟨c, tail, d, more, rfl, first, other, same⟩
    · rfl
    · rw [same, List.isPrefixOf_cons_cons, List.isPrefixOf_cons_cons, later]
    · rw [same, List.isPrefixOf_cons_cons, List.isPrefixOf_cons_cons, apart first, apart other]
      rfl

theorem respelledFront {front t behind : Text} (solid : ∀ c ∈ front, isBlank c = false)
    (begins : respelled ending t = front ++ behind) :
    ∃ rest, t = front ++ rest ∧ behind = respelled ending rest := by
  have starts : front.isPrefixOf t = true := by
    rw [← prefixRespelled blank solid, begins]
    simp
  obtain ⟨rest, rfl⟩ := List.isPrefixOf_iff_prefix.mp starts
  rw [respelledAppend, respelledSolid solid, List.append_cancel_left_eq] at begins
  exact ⟨rest, rfl, begins.symm⟩

def behindFront (front : Text) (parts : Text × Text) : Text × Text := (front ++ parts.1, parts.2)

omit blank in
theorem cutPasses {cut : Text → Option (Text × Text)}
    (passes : ∀ c t, isBlank c = true → cut (c :: t) = (cut t).map (behindFront [c]))
    {front : Text} (all : ∀ c ∈ front, isBlank c = true) (t : Text) :
    cut (front ++ t) = (cut t).map (behindFront front) := by
  induction front with
  | nil => cases found : cut t <;> simp [found, behindFront]
  | cons c rest ih =>
    rw [List.cons_append, passes c _ (all c List.mem_cons_self),
      ih fun d member => all d (List.mem_cons_of_mem c member)]
    cases cut t <;> rfl

def respelledBoth (ending : Text) (pair : Text × Text) : Text × Text :=
  (respelled ending pair.1, respelled ending pair.2)

omit blank in
theorem respelledBehind {c : Char} (other : c ≠ '\n') (parts : Option (Text × Text)) :
    (parts.map (respelledBoth ending)).map (behindFront [c]) =
      (parts.map (behindFront [c])).map (respelledBoth ending) := by
  cases parts <;> simp [respelledBoth, behindFront, respelledOther _ other]

theorem cutRespelled {cut : Text → Option (Text × Text)}
    (passes : ∀ c t, isBlank c = true → cut (c :: t) = (cut t).map (behindFront [c]))
    {c : Char} {rest : Text} (here : isBlank c = true)
    (later : cut (respelled ending rest) = (cut rest).map (respelledBoth ending)) :
    cut (respelled ending (c :: rest)) = (cut (c :: rest)).map (respelledBoth ending) := by
  rw [respelledCons, cutPasses passes (spelledBlank blank here), passes c rest here, later]
  cases cut rest <;> rfl

omit blank in
theorem breakOnPasses {needle : Text} (nonempty : needle ≠ [])
    (solid : ∀ c ∈ needle, isBlank c = false) (c : Char) (t : Text) (here : isBlank c = true) :
    breakOn? needle (c :: t) = (breakOn? needle t).map (behindFront [c]) := by
  have no : needle.isPrefixOf (c :: t) = false := by
    cases needle with
    | nil => contradiction
    | cons n more =>
      have apart : n ≠ c := by
        rintro rfl
        exact absurd here (by simp [solid n List.mem_cons_self])
      simp [List.isPrefixOf_cons_cons, apart]
  rw [breakOn?, no]
  rfl

theorem breakOnRespelled {needle : Text} (nonempty : needle ≠ [])
    (solid : ∀ c ∈ needle, isBlank c = false) (t : Text) :
    breakOn? needle (respelled ending t) = (breakOn? needle t).map (respelledBoth ending) := by
  induction t with
  | nil => simp [breakOn?, nonempty]
  | cons c rest ih =>
    cases here : isBlank c with
    | true => exact cutRespelled blank (breakOnPasses nonempty solid) here ih
    | false =>
      have starts := prefixRespelled blank solid (c :: rest)
      have other := solidOther here
      rw [respelledOther rest other] at starts ⊢
      rw [breakOn?, breakOn?, starts, ih]
      split
      · simp [respelledBoth, respelledOther rest other]
      · exact respelledBehind other _

end Search

def Stands (document : Text) (pos : Nat) (t : Text) : Prop :=
  ∃ before after, document = before ++ t ++ after ∧ before.size = pos

theorem standsSlice {document t : Text} {pos stop : Nat} :
    slice? document pos stop = some t ↔ Stands document pos t ∧ pos + t.size = stop := by
  rw [sliceExact]
  constructor
  · rintro ⟨before, after, same, place, upTo⟩
    exact ⟨⟨before, after, same, place⟩, upTo⟩
  · rintro ⟨⟨before, after, same, place⟩, upTo⟩
    exact ⟨before, after, same, place, upTo⟩

section Stands
variable {document a b : Text} {pos : Nat}

theorem standsFront (stands : Stands document pos (a ++ b)) : Stands document pos a := by
  obtain ⟨before, after, rfl, place⟩ := stands
  exact ⟨before, b ++ after, by simp, place⟩

theorem standsBehind (stands : Stands document pos (a ++ b)) :
    Stands document (pos + a.size) b := by
  obtain ⟨before, after, rfl, rfl⟩ := stands
  exact ⟨before ++ a, after, by simp, by simp⟩

end Stands

section Place
variable {ending : Text}

/- The place that a byte of the text has in the other spelling. -/
def placeIn (ending : Text) : Text → Nat → Nat
  | [], n => n
  | c :: rest, n =>
      if n < c.utf8Size then n else (spelled ending c).size + placeIn ending rest (n - c.utf8Size)

theorem placeInStart (t : Text) : placeIn ending t 0 = 0 := by
  cases t with
  | nil => rfl
  | cons c rest => rw [placeIn, if_pos c.utf8Size_pos]

theorem placeInBehind (a b : Text) :
    placeIn ending (a ++ b) a.size = (respelled ending a).size := by
  induction a with
  | nil => exact placeInStart b
  | cons c rest ih =>
    rw [List.cons_append, placeIn, sizeCons, if_neg (by omega), Nat.add_sub_cancel_left, ih,
      respelledCons, sizeAppend]

theorem standsPlace (ending : Text) {document t : Text} {pos : Nat} (stands : Stands document pos t) :
    placeIn ending document (pos + t.size) =
      placeIn ending document pos + (respelled ending t).size := by
  obtain ⟨before, after, rfl, rfl⟩ := stands
  rw [← sizeAppend, placeInBehind, List.append_assoc, placeInBehind, respelledAppend, sizeAppend]

theorem standsRespelled {document t : Text} {pos : Nat} (stands : Stands document pos t) :
    Stands (respelled ending document) (placeIn ending document pos) (respelled ending t) := by
  obtain ⟨before, after, rfl, rfl⟩ := stands
  rw [List.append_assoc, placeInBehind]
  exact ⟨respelled ending before, respelled ending after, by simp, rfl⟩

theorem placeInMono (blank : BlankEnding ending) (t : Text) : StrictMono (placeIn ending t) := by
  induction t with
  | nil => exact strictMono_id
  | cons c rest ih =>
    intro m n less
    have grows := spelledGrows blank c
    simp only [placeIn]
    by_cases upper : n < c.utf8Size
    · rw [if_pos upper, if_pos (by omega)]
      exact less
    · rw [if_neg upper]
      by_cases lower : m < c.utf8Size
      · rw [if_pos lower]
        omega
      · rw [if_neg lower]
        have := ih (show m - c.utf8Size < n - c.utf8Size by omega)
        omega

end Place

end Text

namespace Lines
open Text

theorem breakEndsRespelled {ending : Text} (known : ending ∈ lineEndings) {t next : Text}
    (plain : '\r' ∉ t) (pos : Nat) (apart : next.head? ≠ some '\n') :
    (breakEnds pos next (respelled ending t)).length = t.count '\n' := by
  induction t generalizing pos with
  | nil => rfl
  | cons c rest ih =>
    obtain ⟨notReturn, later⟩ := not_or.mp (mt List.mem_cons.mpr plain)
    by_cases feed : c = '\n'
    · subst feed
      rw [respelledCons, spelledFeed, List.count_cons_self, breakEndsAppend, List.length_append,
        ih later, Nat.add_comm]
      congr 1
      simp only [lineEndings, List.mem_cons, List.not_mem_nil, or_false] at known
      rcases known with rfl | rfl | rfl
      · simp [breakEnds]
      · simp [breakEnds]
      · -- what follows a lone carriage return is no line feed
        have behind : (respelled "\r" rest ++ next).head? ≠ some '\n' := by
          cases rest with
          | nil => simpa using apart
          | cons d more =>
            by_cases again : d = '\n'
            · simp [again, respelledCons, spelledFeed]
            · simp [respelledOther more again, again]
        rw [show ("\r" : Text) = ['\r'] from rfl, breakEnds, if_pos (.inr ⟨rfl, behind⟩)]
        rfl
    · have lone : c ≠ '\r' := Ne.symm notReturn
      rw [respelledOther rest feed, breakEnds, if_neg (by simp [feed, lone]), ih later,
        List.count_cons_of_ne feed]

theorem lineBreaksRespelled {ending : Text} (known : ending ∈ lineEndings) {t : Text}
    (plain : '\r' ∉ t) : (respelled ending t).lineBreaks = t.lineBreaks := by
  have counted (e : Text) (known : e ∈ lineEndings) :
      (respelled e t).lineBreaks = t.count '\n' := by
    have apart : ¬ ((respelled e t).getLast? = some '\r' ∧ ([] : Text).head? = some '\n') := by simp
    rw [← breakEndsCount 0 apart, breakEndsRespelled known plain 0 (by simp)]
  have whole := counted "\n" (by decide)
  rw [respelledSame] at whole
  rw [counted ending known, whole]

end Lines
end ComponentFile
