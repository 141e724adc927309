import ComponentFile.Files.Environment

/-! Following a path. The last step decides where it ends: in a directory behind a slash or a dot,
and at an entry of that name behind a name, unless a link is followed there. -/
namespace ComponentFile.Files

namespace Tree
variable {t : Tree} {follow : Bool} {links : Nat} {here l : Location} {ss : List Step}
  {onward : Location → List Step → Except FileFault Location}

theorem lastOfCons {step last : Step} {rest : List Step}
    (h : (step :: rest).getLast? = some last) : rest = [] ∧ step = last ∨ rest.getLast? = some last := by
  cases rest with
  | nil => exact .inl ⟨rfl, by simpa using h⟩
  | cons next more => exact .inr (by rwa [List.getLast?_cons_cons] at h)

theorem lastOfAppend {target rest : List Step} {last : Step} (h : rest.getLast? = some last) :
    (target ++ rest).getLast? = some last := by
  rw [List.getLast?_append, h]
  rfl

theorem walkWithStay
    (further : ∀ {here ss}, onward here ss = .ok l → ss.getLast? = some .stay → t.isDirectory l = true)
    (found : t.walkWith follow onward here ss = .ok l) (last : ss.getLast? = some .stay) :
    t.isDirectory l = true := by
  -- the cases: the end, no directory to go on from, a dot, two dots, a name that is missing, a last
  -- link that is kept, a link that is followed, any other entry
  fun_induction walkWith t follow onward here ss with
  | case1 => contradiction
  | case2 => contradiction
  | case3 here rest directory ih =>
    rcases lastOfCons last with ⟨rfl, _⟩ | onward
    · cases found
      simpa using directory
    · exact ih found onward
  | case4 here rest _ ih =>
    rcases lastOfCons last with ⟨_, other⟩ | onward
    · contradiction
    · exact ih found onward
  | case5 => contradiction
  | case6 here rest _ name target _ ends =>
    rcases lastOfCons last with ⟨_, other⟩ | onward
    · contradiction
    · have none : rest = [] := by simp at ends; exact ends.1
      rw [none] at onward
      contradiction
  | case7 here rest _ name target =>
    rcases lastOfCons last with ⟨_, other⟩ | onward
    · contradiction
    · exact further found (lastOfAppend onward)
  | case8 here rest _ name entry _ _ ih =>
    rcases lastOfCons last with ⟨_, other⟩ | onward
    · contradiction
    · exact ih found onward

theorem walkStay (found : t.walk follow links here ss = .ok l) (last : ss.getLast? = some .stay) :
    t.isDirectory l = true := by
  induction links generalizing here ss with
  | zero => exact walkWithStay (fun failed => by contradiction) found last
  | succ links ih => exact walkWithStay ih found last

theorem walkWithInto {name : Name}
    (further : ∀ {here ss}, onward here ss = .ok l → ss.getLast? = some (.into name) →
      l.getLast? = some name)
    (found : t.walkWith false onward here ss = .ok l) (last : ss.getLast? = some (.into name)) :
    l.getLast? = some name := by
  fun_induction walkWith t false onward here ss with
  | case1 => contradiction
  | case2 => contradiction
  | case3 here rest _ ih =>
    rcases lastOfCons last with ⟨_, other⟩ | onward
    · contradiction
    · exact ih found onward
  | case4 here rest _ ih =>
    rcases lastOfCons last with ⟨_, other⟩ | onward
    · contradiction
    · exact ih found onward
  | case5 => contradiction
  | case6 here rest _ other target _ ends =>
    rcases lastOfCons last with ⟨_, same⟩ | onward
    · cases same
      cases found
      exact List.getLast?_concat
    · have none : rest = [] := by simpa using ends
      rw [none] at onward
      contradiction
  | case7 here rest _ other target _ goes =>
    rcases lastOfCons last with ⟨none, _⟩ | onward
    · simp [none] at goes
    · exact further found (lastOfAppend onward)
  | case8 here rest _ other entry _ _ ih =>
    rcases lastOfCons last with ⟨rfl, same⟩ | onward
    · cases same
      cases found
      exact List.getLast?_concat
    · exact ih found onward

theorem walkInto {name : Name} (found : t.walk false links here ss = .ok l)
    (last : ss.getLast? = some (.into name)) : l.getLast? = some name := by
  induction links generalizing here ss with
  | zero => exact walkWithInto (fun failed => by contradiction) found last
  | succ links ih => exact walkWithInto ih found last

theorem walkWithFollow {onward' : Location → List Step → Except FileFault Location}
    (further : ∀ {here ss}, onward here ss = .ok l → onward' here ss = .ok l)
    (found : t.walkWith false onward here ss = .ok l)
    (plain : ∀ target, t.get? l ≠ some (.link target)) : t.walkWith true onward' here ss = .ok l := by
  fun_induction walkWith t false onward here ss with
  | case1 => exact found
  | case2 => contradiction
  | case3 here rest directory ih =>
    rw [walkWith, if_neg directory]
    exact ih found
  | case4 here rest directory ih =>
    rw [walkWith, if_neg directory]
    exact ih found
  | case5 => contradiction
  | case6 here rest _ name target linked ends =>
    cases found
    exact absurd linked (plain target)
  | case7 here rest directory name target linked goes =>
    rw [walkWith, if_neg directory]
    simp only [linked]
    rw [if_neg (by simp)]
    exact further found
  | case8 here rest directory name entry notLink there ih =>
    rw [walkWith, if_neg directory]
    simp only [there]
    exact ih found

theorem walkFollow (found : t.walk false links here ss = .ok l)
    (plain : ∀ target, t.get? l ≠ some (.link target)) : t.walk true links here ss = .ok l := by
  induction links generalizing here ss with
  | zero => exact walkWithFollow (fun failed => by contradiction) found plain
  | succ links ih => exact walkWithFollow ih found plain

end Tree
end ComponentFile.Files
