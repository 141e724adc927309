import ComponentFile.Loader.Installation
import ComponentFile.Proofs.Files.Names
import ComponentFile.Proofs.Outcome

/-! What a loader remembers. Through any sequence of loads, on a machine that may have changed
between any two of them, the map that is remembered for a path is the one that the last load to
succeed there gave. A load that fails leaves no trace, neither here nor in a module system. -/
namespace ComponentFile
open Files (Environment)

namespace Compiler
variable {env : Environment} {c : Compiler} {path : Path} {m : ComponentModule}

theorem compileAtPath (done : c.compileAt env path = .ok m) : m.path = path := by
  obtain ⟨source, -, done⟩ := bindOk done
  obtain ⟨sections, -, done⟩ := bindOk done
  obtain ⟨parts, -, done⟩ := bindOk done
  obtain ⟨script, -, done⟩ := bindOk done
  obtain ⟨template, -, done⟩ := bindOk done
  obtain ⟨styles, -, done⟩ := bindOk done
  cases done
  rfl

theorem compilePath (done : c.compile env path = .ok m) : realPath env path = .ok m.path := by
  obtain ⟨canonical, located, done⟩ := bindOk done
  rw [compileAtPath done]
  exact located

end Compiler

namespace Loader

/- A call, with the machine as it is then. Plugins of this process may answer differently from one
call to the next; programs belong to the machine. -/
inductive Call where
  | load (env : Environment) (plugins : PluginSet) (path : Path)
  | forgetMaps

inductive Report where
  | loaded (env : Environment) (path : Path) (result : Except LoadFailure ComponentModule)
  | forgotten

def withPlugins (l : Loader) (plugins : PluginSet) : Loader :=
  { l with compiler := { l.compiler with plugins := plugins } }

def call (l : Loader) : Call → Loader × Report
  | .load env plugins path =>
      let (next, result) := (l.withPlugins plugins).load env path
      (next, .loaded env path result)
  | .forgetMaps => (l.forgetMaps, .forgotten)

def follow (l : Loader) : List Call → Loader × List Report
  | [] => (l, [])
  | c :: rest =>
      let (next, report) := l.call c
      let (last, reports) := follow next rest
      (last, report :: reports)

def Report.Silent (path : Path) : Report → Prop
  | .loaded _ _ (.ok m) => (m.path == path) = false
  | .loaded _ _ (.error _) => True
  | .forgotten => False

/- The last of the reported loads that succeeded at a path gave the module `m`, and nothing was
forgotten since. -/
def LastLoad (reports : List Report) (path : Path) (m : ComponentModule) : Prop :=
  ∃ before env asked after, reports = before ++ .loaded env asked (.ok m) :: after ∧
    (m.path == path) = true ∧ ∀ r ∈ after, r.Silent path

structure Coherent (l : Loader) (reports : List Report) : Prop where
  remembers : ∀ path map, l.maps.get? path = some map ↔
    ∃ m, LastLoad reports path m ∧ m.map = some map
  once : l.maps.Distinct
  places : ∀ env path m, .loaded env path (.ok m) ∈ reports → realPath env path = .ok m.path

section Reports
variable {reports : List Report} {r : Report} {path : Path} {m : ComponentModule}

theorem lastLoadNone : ¬ LastLoad [] path m := by
  rintro ⟨before, env, asked, after, same, _⟩
  simp at same

theorem lastLoadMore : LastLoad (reports ++ [r]) path m ↔
    (∃ env asked, r = .loaded env asked (.ok m) ∧ (m.path == path) = true) ∨
      LastLoad reports path m ∧ r.Silent path := by
  constructor
  · rintro ⟨before, env, asked, after, same, there, silent⟩
    rcases List.eq_nil_or_concat after with rfl | ⟨earlier, last, rfl⟩
    · obtain ⟨_, one⟩ := List.append_inj' same rfl
      cases List.singleton_inj.mp one
      exact .inl ⟨env, asked, rfl, there⟩
    · rw [List.concat_eq_append, ← List.cons_append, ← List.append_assoc] at same
      obtain ⟨rfl, one⟩ := List.append_inj' same rfl
      cases List.singleton_inj.mp one
      have silent : ∀ s, s ∈ earlier ∨ s = r → s.Silent path := by simpa using silent
      exact .inr ⟨⟨before, env, asked, earlier, rfl, there, fun s member => silent s (.inl member)⟩,
        silent r (.inr rfl)⟩
  · rintro (⟨env, asked, rfl, there⟩ | ⟨⟨before, env, asked, after, rfl, there, silent⟩, still⟩)
    · exact ⟨reports, env, asked, [], rfl, there, by simp⟩
    · refine ⟨before, env, asked, after ++ [r], by simp, there, ?_⟩
      intro s member
      rcases List.mem_append.mp member with old | new
      · exact silent s old
      · cases List.mem_singleton.mp new
        exact still

end Reports

section Step
variable {l : Loader} {reports : List Report} {env : Environment} {path : Path}

theorem getRemember (m : ComponentModule) (path : Path) :
    (l.remember m).maps.get? path = if m.path == path then m.map else l.maps.get? path := by
  unfold remember
  cases m.map with
  | some map => exact Table.getPut _ _ _ _
  | none => exact Table.getErase _ _ _

theorem rememberDistinct (m : ComponentModule) (once : l.maps.Distinct) :
    (l.remember m).maps.Distinct := by
  unfold remember
  split
  · exact Table.distinctPut once _ _
  · exact Table.distinctErase once _

theorem loadFails {e : LoadFailure} (failed : (l.load env path).2 = .error e) :
    l.load env path = (l, .error e) := by
  unfold load at failed ⊢
  cases outcome : l.compiler.compile env path with
  | ok m => rw [outcome] at failed; contradiction
  | error f => rw [outcome] at failed; cases failed; rfl

theorem loadDone {m : ComponentModule} (done : (l.load env path).2 = .ok m) :
    l.load env path = (l.remember m, .ok m) ∧ realPath env path = .ok m.path := by
  unfold load at done ⊢
  cases outcome : l.compiler.compile env path with
  | ok n => rw [outcome] at done; cases done; exact ⟨rfl, Compiler.compilePath outcome⟩
  | error f => rw [outcome] at done; contradiction

theorem coherentStart (config : Configuration) (plugins : PluginSet) :
    Coherent (fresh config plugins) [] := by
  refine ⟨fun path map => ?_, List.Pairwise.nil, by simp⟩
  simp [fresh, Table.getNil, lastLoadNone]

theorem coherentFailure {e : LoadFailure} (h : Coherent l reports) :
    Coherent l (reports ++ [.loaded env path (.error e)]) := by
  refine ⟨fun place map => ?_, h.once, ?_⟩
  · rw [h.remembers]
    simp [lastLoadMore, Report.Silent]
  · intro env' path' m member
    exact h.places env' path' m (by simpa using member)

theorem coherentSuccess {m : ComponentModule} (placed : realPath env path = .ok m.path)
    (h : Coherent l reports) :
    Coherent (l.remember m) (reports ++ [.loaded env path (.ok m)]) := by
  refine ⟨fun place map => ?_, rememberDistinct m h.once, ?_⟩
  · rw [getRemember]
    split
    · rename_i here
      constructor
      · intro given
        exact ⟨m, lastLoadMore.mpr (.inl ⟨env, path, rfl, here⟩), given⟩
      · rintro ⟨n, last, given⟩
        rcases lastLoadMore.mp last with ⟨_, _, same, _⟩ | ⟨_, silent⟩
        · cases same
          exact given
        · rw [Report.Silent, here] at silent
          contradiction
    · rename_i elsewhere
      rw [h.remembers]
      constructor
      · rintro ⟨n, last, given⟩
        exact ⟨n, lastLoadMore.mpr (.inr ⟨last, by simpa [Report.Silent] using elsewhere⟩), given⟩
      · rintro ⟨n, last, given⟩
        rcases lastLoadMore.mp last with ⟨_, _, same, there⟩ | ⟨last, _⟩
        · cases same
          exact absurd there elsewhere
        · exact ⟨n, last, given⟩
  · intro env' path' n member
    rcases List.mem_append.mp member with old | new
    · exact h.places env' path' n old
    · cases List.mem_singleton.mp new
      exact placed

theorem coherentForget (h : Coherent l reports) :
    Coherent l.forgetMaps (reports ++ [.forgotten]) := by
  refine ⟨fun place map => ?_, List.Pairwise.nil, ?_⟩
  · simp [forgetMaps, Table.getNil, lastLoadMore, Report.Silent]
  · intro env' path' m member
    exact h.places env' path' m (by simpa using member)

theorem coherentPlugins (plugins : PluginSet) (h : Coherent l reports) :
    Coherent (l.withPlugins plugins) reports := ⟨h.remembers, h.once, h.places⟩

theorem coherentCall (c : Call) (h : Coherent l reports) :
    Coherent (l.call c).1 (reports ++ [(l.call c).2]) := by
  cases c with
  | forgetMaps => exact coherentForget h
  | load env plugins path =>
    have h := coherentPlugins plugins h
    simp only [call]
    cases outcome : ((l.withPlugins plugins).load env path).2 with
    | error e =>
      rw [loadFails outcome]
      exact coherentFailure h
    | ok m =>
      obtain ⟨loaded, placed⟩ := loadDone outcome
      rw [loaded]
      exact coherentSuccess placed h

theorem coherentFollow (calls : List Call) (h : Coherent l reports) :
    Coherent (l.follow calls).1 (reports ++ (l.follow calls).2) := by
  induction calls generalizing l reports with
  | nil => simpa [follow] using h
  | cons c rest ih =>
    have onward := ih (coherentCall c h)
    rwa [List.append_assoc] at onward

end Step

end Loader

namespace Installation
variable {env : Environment} {r : Installation} {path : Path}

theorem loadCases (env : Environment) (r : Installation) (path : Path) :
    (∃ e, r.load env path = (r, .error e)) ∨
      ∃ m, r.installed = true ∧ r.handles path = true ∧ realPath env path = .ok m.path ∧
        r.load env path = ({ r with loader := r.loader.remember m }, .ok m) := by
  unfold load
  by_cases installed : r.installed = true
  · by_cases handled : r.handles path = true
    · rw [if_neg (by simp [installed]), if_neg (by simp [handled])]
      cases outcome : (r.loader.load env path).2 with
      | error e =>
        rw [Loader.loadFails outcome]
        exact .inl ⟨e, rfl⟩
      | ok m =>
        obtain ⟨loaded, placed⟩ := Loader.loadDone outcome
        rw [loaded]
        exact .inr ⟨m, installed, handled, placed, rfl⟩
    · rw [if_neg (by simp [installed]), if_pos (by simp [handled])]
      exact .inl ⟨_, rfl⟩
  · rw [if_pos (by simp [installed])]
    exact .inl ⟨_, rfl⟩

theorem loadIntoCases (env : Environment) (r : Installation) (h : ModuleSystem) (path : Path) :
    (∃ e, r.loadInto env h path = (r, h, .error e)) ∨
      ∃ m, r.installed = true ∧ r.handles path = true ∧ realPath env path = .ok m.path ∧
        (r.load env path).2 = .ok m ∧
        r.loadInto env h path = ({ r with loader := r.loader.remember m }, h.insert m, .ok ()) := by
  unfold loadInto
  rcases loadCases env r path with ⟨e, failed⟩ | ⟨m, installed, handled, placed, loaded⟩
  · rw [failed]
    exact .inl ⟨e, rfl⟩
  · rw [loaded]
    exact .inr ⟨m, installed, handled, placed, rfl, rfl⟩

theorem loadIntoFails {h : ModuleSystem} {e : LoadFailure}
    (failed : (r.loadInto env h path).2.2 = .error e) : r.loadInto env h path = (r, h, .error e) := by
  rcases loadIntoCases env r h path with ⟨f, same⟩ | ⟨m, _, _, _, _, same⟩
  · rw [same] at failed ⊢
    cases failed
    rfl
  · rw [same] at failed
    contradiction

end Installation

namespace Loader

/- After any calls exactly the maps of the last successful loads are remembered, one for each real
path and under each spelling of it. A load that fails changes no map, and one that fails to load
into a module system changes nothing at all. -/
theorem cacheCoherent (config : Configuration) (plugins : PluginSet) (calls : List Call) :
    let l := ((fresh config plugins).follow calls).1
    let reports := ((fresh config plugins).follow calls).2
    Coherent l reports ∧
      (∀ env path canonical map, realPath env path = .ok canonical →
        (l.mapOf env path = some map ↔ ∃ m, LastLoad reports canonical m ∧ m.map = some map)) ∧
      (∀ env plugins path e, (l.call (.load env plugins path)).2 = .loaded env path (.error e) →
        (l.call (.load env plugins path)).1.maps = l.maps) ∧
      ∀ (r : Installation) (h : ModuleSystem) env path e,
        (r.loadInto env h path).2.2 = .error e → r.loadInto env h path = (r, h, .error e) := by
  intro l reports
  have coherent : Coherent l reports := by
    simpa using coherentFollow calls (coherentStart config plugins)
  refine ⟨coherent, ?_, ?_, fun _ _ _ _ _ failed => Installation.loadIntoFails failed⟩
  · intro env path canonical map located
    rw [← coherent.remembers]
    unfold mapOf
    rw [located]
  · intro env plugins path e failed
    simp only [call, Report.loaded.injEq, true_and] at failed
    simp only [call]
    rw [loadFails failed]
    rfl

end Loader
end ComponentFile
