import Mathlib.Data.List.Induction
import ComponentFile.Proofs.Files.Walk
import ComponentFile.Proofs.Table
import ComponentFile.Proofs.Text.Utf8

/-! Names of files. Paths are the same when their components are, and then they have the same
extension. The real path of a file keeps the name under which the file was asked for, unless that
name is a link. -/
namespace ComponentFile

namespace Path

theorem sameExact {p q : Path} : (p == q) = true ↔ p.components = q.components :=
  beq_iff_eq (α := List Component)

instance : EquivBEq Path where
  rfl := sameExact.mpr rfl
  symm same := sameExact.mpr (sameExact.mp same).symm
  trans left right := sameExact.mpr ((sameExact.mp left).trans (sameExact.mp right))

theorem sameExtension {p q : Path} (same : (p == q) = true) : p.extension? = q.extension? := by
  unfold extension? fileName?
  rw [sameExact.mp same]

structure IsName (t : Text) : Prop where
  part : component? t = some (.name t)
  clean : ∀ c ∈ t, c ≠ '/'

theorem componentName {part t : Text} (h : component? part = some (.name t)) : part = t := by
  unfold component? at h
  split at h
  · contradiction
  · split at h
    · cases h
    · cases h
      rfl

theorem fileNameParts {p : Path} {t : Text} (named : p.fileName? = some t) :
    ((Text.splitAt '/' p.text).filterMap component?).getLast? = some (.name t) := by
  unfold fileName? components at named
  rw [List.getLast?_append] at named
  cases last : ((Text.splitAt '/' p.text).filterMap component?).getLast? with
  | some c =>
    rw [last] at named
    cases c <;> simp_all
  | none =>
    rw [last] at named
    split at named
    · rename_i other front
      split at front
      · simp at front
      · split at front <;> simp at front
    · contradiction

theorem fileNameExact {p : Path} {t : Text} (named : p.fileName? = some t) : IsName t := by
  have member := List.mem_of_getLast? (fileNameParts named)
  obtain ⟨part, inParts, same⟩ := List.mem_filterMap.mp member
  obtain rfl := componentName same
  exact ⟨same, Text.splitClean inParts⟩

theorem fileNameBehind {front t : Text} (name : IsName t) :
    fileName? ⟨front ++ '/' :: t⟩ = some t := by
  unfold fileName? components
  have parts : Text.splitAt '/' (front ++ '/' :: t) = Text.splitAt '/' front ++ [t] := by
    rw [Text.splitAppend, Text.splitAlone name.clean]
  simp only [parts, List.filterMap_append, List.filterMap_cons, name.part, List.filterMap_nil,
    ← List.append_assoc, List.getLast?_concat]

end Path

namespace Files
open ComponentFile.Path (IsName component? fileNameParts fileNameExact)

theorem stepName {t : Text} (name : component? t = some (.name t)) :
    step? (Utf8.encode t) = some (.into (Utf8.encode t)) := by
  unfold component? at name
  split at name
  · contradiction
  · rename_i plain
    split at name
    · cases name
    · rename_i notParent
      have differs {s : Text} (other : t ≠ s) : Utf8.encode t ≠ Utf8.encode s :=
        fun same => other (Utf8.encodeInjective same)
      have filled : Utf8.encode t ≠ [] := differs (s := []) fun same => plain (.inl same)
      unfold step?
      rw [if_neg filled, if_neg (differs (s := ".") fun same => plain (.inr same)),
        if_neg (differs (s := "..") notParent)]

theorem stepsLast {p : Path} {t : Text} (named : p.fileName? = some t) :
    (steps (Utf8.encode p.text)).getLast? = some .stay ∨
      (steps (Utf8.encode p.text)).getLast? = some (.into (Utf8.encode t)) := by
  have parts (all : List Text) (last : (all.filterMap component?).getLast? = some (.name t)) :
      ((all.map Utf8.encode).filterMap step?).getLast? = some .stay ∨
        ((all.map Utf8.encode).filterMap step?).getLast? = some (.into (Utf8.encode t)) := by
    induction all using List.reverseRecOn with
    | nil => contradiction
    | append_singleton front part ih =>
      simp only [List.map_append, List.map_cons, List.map_nil, List.filterMap_append] at last ⊢
      by_cases silent : part = []
      · subst silent
        have none : [Utf8.encode []].filterMap step? = [] := by decide
        have none' : [([] : Text)].filterMap component? = [] := by decide
        rw [none, List.append_nil]
        rw [none', List.append_nil] at last
        exact ih last
      · by_cases dot : part = ['.']
        · subst dot
          have stay : [Utf8.encode ['.']].filterMap step? = [.stay] := by decide
          rw [stay, List.getLast?_concat]
          exact .inl rfl
        · cases here : component? part with
          | none =>
            unfold component? at here
            rw [if_neg (by simp [silent, dot])] at here
            split at here <;> contradiction
          | some c =>
            rw [List.filterMap_cons, here, List.filterMap_nil, List.getLast?_concat] at last
            cases last
            obtain rfl := Path.componentName here
            rw [List.filterMap_cons, stepName here, List.filterMap_nil, List.getLast?_concat]
            exact .inr rfl
  have split : Text.splitAt slash (Utf8.encode p.text) = (Text.splitAt '/' p.text).map Utf8.encode :=
    Utf8.splitEncode (a := '/') (by decide) p.text
  unfold steps
  rw [split]
  split
  · rw [List.getLast?_concat]
    exact .inl rfl
  · rw [List.append_nil]
    exact parts _ (fileNameParts named)

theorem pathName {l : Location} {canonical : Path} {t : Text} (name : IsName t)
    (last : l.getLast? = some (Utf8.encode t)) (spelled : Location.path? l = some canonical) :
    canonical.fileName? = some t := by
  obtain ⟨above, rfl⟩ := List.getLast?_eq_some_iff.mp last
  have joined (names : List Text) :
      ∃ front, '/' :: List.intercalate ['/'] (names ++ [t]) = front ++ '/' :: t := by
    induction names with
    | nil => exact ⟨[], by simp [List.intercalate]⟩
    | cons first rest ih =>
      obtain ⟨front, same⟩ := ih
      refine ⟨'/' :: first ++ front, ?_⟩
      cases more : rest ++ [t] with
      | nil => simp at more
      | cons second others =>
        rw [more] at same
        rw [List.cons_append, more, List.intercalate_cons_cons]
        simp [← same]
  unfold Location.path? at spelled
  rw [Option.map_eq_some_iff] at spelled
  obtain ⟨names, decoded, rfl⟩ := spelled
  rw [List.mapM_append] at decoded
  obtain ⟨upper, -, decoded⟩ := Option.bind_eq_some_iff.mp decoded
  obtain ⟨lower, own, decoded⟩ := Option.bind_eq_some_iff.mp decoded
  have own : lower = [t] := by
    simpa [Utf8.decodeEncode, Except.toOption, eq_comm] using own
  cases decoded
  subst own
  obtain ⟨front, same⟩ := joined upper
  rw [same]
  exact Path.fileNameBehind name

namespace Environment
variable {env : Environment} {path : Path}

/- A path that leads to a file of its own name, not through a link of that name. -/
def NamesFile (env : Environment) (path : Path) : Prop :=
  ∃ l e, env.locateWith false path = .ok l ∧ env.entryAt? l = some e ∧ e.isRegular = true

theorem namesFilePlace (direct : env.NamesFile path) {t : Text} (named : path.fileName? = some t) :
    ∃ l, env.locate path = .ok l ∧ l.getLast? = some (Utf8.encode t) := by
  obtain ⟨l, e, found, there, regular⟩ := direct
  have some : l.isEmpty = false := by
    cases l with
    | nil => cases there; contradiction
    | cons => rfl
  have there : env.tree.get? l = Option.some e := by
    unfold entryAt? at there
    rwa [some] at there
  unfold locate
  unfold locateWith at found ⊢
  split at found
  · contradiction
  · split at found
    · contradiction
    · rename_i clean filled
      rw [if_neg clean, if_neg filled]
      refine ⟨l, Tree.walkFollow found ?_, ?_⟩
      · intro target linked
        rw [there] at linked
        cases linked
        contradiction
      · rcases stepsLast named with stay | into
        · have directory := Tree.walkStay found stay
          unfold Tree.isDirectory at directory
          rw [some, there] at directory
          cases e <;> contradiction
        · exact Tree.walkInto found into

end Environment
end Files
end ComponentFile
