import ComponentFile.Proofs.Loader.Effects

/-! What uninstalling takes out of a module system. Modules stand under real paths, and it is the
extension of the real path that decides what goes. A component that was asked for under the name of
its file has the same extension there; one that was asked for through a link need not have it. -/
namespace ComponentFile
open Files (Environment)

section RealPath
variable {env : Environment} {path canonical : Path}

theorem realPathName (direct : env.NamesFile path) (real : realPath env path = .ok canonical)
    {t : Text} (named : path.fileName? = some t) : canonical.fileName? = some t := by
  obtain ⟨l, located, last⟩ := Environment.namesFilePlace direct named
  unfold realPath at real
  rw [located] at real
  cases spelled : Files.Location.path? l with
  | none =>
    simp only [spelled] at real
    contradiction
  | some other =>
    simp only [spelled] at real
    cases real
    exact Files.pathName (Path.fileNameExact named) last spelled

theorem realPathExtension (direct : env.NamesFile path) (real : realPath env path = .ok canonical)
    {extension : Text} (has : path.extension? = some extension) :
    canonical.extension? = some extension := by
  unfold Path.extension? at has ⊢
  obtain ⟨t, named, ends⟩ := Option.bind_eq_some_iff.mp has
  rw [realPathName direct real named]
  exact ends

end RealPath

namespace ModuleSystem
variable (h : ModuleSystem) {extension : Text}

theorem getApart (path : Path) : (h.apart extension).get? path =
    if path.extension? = some extension then none else h.get? path := by
  unfold get? apart
  rw [Table.getFilter (fun p : Path => decide (p.extension? ≠ some extension)) _
    fun p same => by rw [Path.sameExtension same]]
  by_cases own : path.extension? = some extension <;> simp [own]

theorem insertApart {m : ComponentModule} (own : m.path.extension? = some extension) :
    (h.insert m).apart extension = h.apart extension :=
  Table.putFilter (fun p : Path => decide (p.extension? ≠ some extension)) _ _
    (fun p same => by rw [Path.sameExtension same]) (by simp [own])

end ModuleSystem

namespace Session
variable {s : Session} {ops : List Operation} {i : Nat} {path : Path} {extension : Text}

theorem requireDone (done : (s.step (.loadInto i path)).2 = .required (.ok ())) :
    ∃ r m, s.targets[i]? = some (.installation r) ∧ r.handles path = true ∧
      realPath s.env path = .ok m.path ∧
      (s.step (.loadInto i path)).1.modules = s.modules.insert m := by
  simp only [step, onInstallation] at done ⊢
  split at done
  · rename_i r here
    rcases Installation.loadIntoCases s.env r s.modules path with
      ⟨e, failed⟩ | ⟨m, _, handled, placed, _, loaded⟩
    · simp only [failed] at done
      cases done
    · rw [here]
      simp only [loaded]
      exact ⟨r, m, rfl, handled, placed, rfl⟩
  · contradiction

theorem uninstallDone (done : (s.step (.uninstall i)).2 = .flag true) :
    ∃ r, s.targets[i]? = some (.installation r) ∧ r.installed = true := by
  simp only [step, onInstallation] at done
  split at done
  · rename_i r here
    cases installed : r.installed with
    | false =>
      simp only [Installation.uninstallRefused installed] at done
      cases done
    | true => exact ⟨r, here, installed⟩
  · contradiction

/- A component that is put into the module system, `last` being what stands there before its loader
is uninstalled and `left` what stands there afterwards. -/
structure Evicted (now : Session) (i : Nat) (path : Path) (extension : Text)
    (last left : ModuleSystem) (m : ComponentModule) : Prop where
  real : realPath now.env path = .ok m.path
  put : (now.step (.loadInto i path)).1.modules = now.modules.insert m
  gone : left.get? m.path = none ↔ m.path.extension? = some extension ∨ last.get? m.path = none
  direct : now.env.NamesFile path → left.get? m.path = none ∧
    (now.step (.loadInto i path)).1.modules.apart extension = now.modules.apart extension

theorem loadEvicted (last : ModuleSystem)
    (loaded : (s.step (.loadInto i path)).2 = .required (.ok ()))
    (own : ∀ r, s.targets[i]? = some (.installation r) → r.extension = extension) :
    ∃ m, Evicted s i path extension last (last.without extension) m := by
  obtain ⟨r, m, here, handled, real, put⟩ := requireDone loaded
  have kept : (last.without extension).get? m.path =
      if m.path.extension? = some extension then none else last.get? m.path :=
    last.getApart m.path
  refine ⟨m, real, put, ?_, fun direct => ?_⟩
  · rw [kept]
    split
    · rename_i has
      simp [has]
    · rename_i lacks
      simp [lacks]
  · have asked : path.extension? = some extension := by
      rw [← own r here]
      exact Installation.handlesSame.mp handled
    have has := realPathExtension direct real asked
    rw [kept, if_pos has, put]
    exact ⟨rfl, s.modules.insertApart has⟩

/- Uninstalling takes out exactly the modules whose real paths have the extension, and leaves the
others as they stand. A module that was loaded under the name of its file is among those that go,
and loading it has not touched the others either. -/
theorem uninstallEvicts (done : ((s.run ops).1.step (.uninstall i)).2 = .flag true) :
    let last := (s.run ops).1
    let left := (last.step (.uninstall i)).1
    ∃ r, last.targets[i]? = some (.installation r) ∧
      left.targets[i]? = some (.installation ⟨r.loader.forgetMaps, false⟩) ∧
      left.modules = last.modules.without r.extension ∧
      ∀ before path rest, ops = before ++ .loadInto i path :: rest →
        ((s.run before).1.step (.loadInto i path)).2 = .required (.ok ()) →
        ∃ m, Evicted (s.run before).1 i path r.extension last.modules left.modules m := by
  intro last left
  obtain ⟨r, here, installed⟩ := uninstallDone done
  have gone : left = ⟨last.env, last.modules.without r.extension,
      last.targets.set i (.installation ⟨r.loader.forgetMaps, false⟩)⟩ :=
    congrArg Prod.fst (uninstallStep here installed)
  have modules : left.modules = last.modules.without r.extension := by rw [gone]
  refine ⟨r, here, ?_, modules, ?_⟩
  · rw [gone, targetSet here, if_pos rfl]
  · intro before path rest split loaded
    rw [modules]
    refine loadEvicted last.modules loaded fun q there => ?_
    -- what the target handles is the same before and after the rest of the run
    obtain ⟨r', found, same⟩ := extensionRun (.loadInto i path :: rest) there
    rw [← runAppend, ← split] at found
    cases found.symm.trans here
    exact same.symm

section Samples

def linked : Environment :=
  let name (t : Text) : Files.Name := Utf8.encode t
  ⟨[([name "w"], .directory), ([name "w", name "Main.vue"], .file []),
    ([name "w", name "page.txt"], .file []),
    ([name "w", name "Page.vue"], .link (name "page.txt"))], [name "w"], [], ⟨['/']⟩⟩

def opened : Session := start linked [.installation (.ofLoader (.fresh .default .empty))]

theorem openedRun {path canonical : Path} (named : path.extension? = some ("vue" : Text))
    (real : realPath linked path = .ok canonical) (read : linked.read canonical = .ok []) :
    let filled := ModuleSystem.insert ⟨["vue"], []⟩ ⟨canonical, [], none, none, []⟩
    opened.run [.install 0, .loadInto 0 path, .uninstall 0] =
      (⟨linked, filled.without "vue", opened.targets⟩,
        [.flag true, .required (.ok ()), .flag true]) := by
  intro filled
  let r : Installation := ⟨.fresh .default .empty, true⟩
  have installs : opened.step (.install 0) =
      (⟨linked, ⟨["vue"], []⟩, [.installation r]⟩, .flag true) := rfl
  have loads : step ⟨linked, ⟨["vue"], []⟩, [.installation r]⟩ (.loadInto 0 path) =
      (⟨linked, filled, [.installation r]⟩, .required (.ok ())) :=
    loadIntoStep rfl rfl (Installation.handlesSame.mpr named) (r.loader.compiler.compileEmpty real read)
  have leaves : step ⟨linked, filled, [.installation r]⟩ (.uninstall 0) =
      (⟨linked, filled.without "vue", opened.targets⟩, .flag true) :=
    @uninstallStep ⟨linked, filled, [.installation r]⟩ 0 r rfl rfl
  simp only [run, installs, loads, leaves]

theorem namedComponentGone :
    ((opened.run [.install 0, .loadInto 0 ⟨"Main.vue"⟩]).1.step (.uninstall 0)).2 = .flag true ∧
      ((opened.run [.install 0, .loadInto 0 ⟨"Main.vue"⟩]).1.step (.uninstall 0)).1.modules.get?
        ⟨"/w/Main.vue"⟩ = none := by
  have located : realPath linked ⟨"Main.vue"⟩ = .ok ⟨"/w/Main.vue"⟩ := by with_unfolding_all rfl
  have direct : linked.NamesFile ⟨"Main.vue"⟩ :=
    ⟨[Utf8.encode "w", Utf8.encode "Main.vue"], .file [], rfl, rfl, rfl⟩
  have answers := congrArg Prod.snd (@openedRun ⟨"Main.vue"⟩ _ (by decide) located rfl)
  simp only [run, List.cons.injEq] at answers
  obtain ⟨-, loaded, last, -⟩ := answers
  have done : ((opened.run [.install 0, .loadInto 0 ⟨"Main.vue"⟩]).1.step (.uninstall 0)).2 =
      .flag true := last
  obtain ⟨r, -, -, -, loads⟩ := uninstallEvicts done
  obtain ⟨m, placed, -, -, gone⟩ := loads [.install 0] ⟨"Main.vue"⟩ [] rfl loaded
  have same : m.path = ⟨"/w/Main.vue"⟩ := Except.ok.inj (placed.symm.trans located)
  rw [← same]
  exact ⟨done, (gone direct).1⟩

/- Asked for through the link the component passes for one of the extension, but its real path does
not have it: it is loaded, and it stays when its loader is uninstalled. -/
theorem linkedComponentStays :
    (opened.run [.install 0, .loadInto 0 ⟨"Page.vue"⟩, .uninstall 0, .modules]).2 =
      [.flag true, .required (.ok ()), .flag true, .paths [⟨"/w/page.txt"⟩]] := by
  have located : realPath linked ⟨"Page.vue"⟩ = .ok ⟨"/w/page.txt"⟩ := by with_unfolding_all rfl
  have ran := @openedRun ⟨"Page.vue"⟩ _ (by decide) located rfl
  simp only [run, Prod.mk.injEq, List.cons.injEq] at ran ⊢
  obtain ⟨left, installs, loads, leaves, -⟩ := ran
  rw [installs, loads, leaves, left]
  exact ⟨rfl, rfl, rfl, rfl, trivial⟩

end Samples
end Session
end ComponentFile
