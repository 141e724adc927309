import Mathlib.Data.Finset.Card
import ComponentFile.CommandLine.Run
import ComponentFile.Proofs.Loader.Effects

/-! What a check counts. Every component is compiled once for each time it is found, and it fails or
becomes the module of its real path. So the modules are as many as the components that did not fail
exactly when no two of those are one file. -/
namespace ComponentFile
open Files (Environment)

/- A failure that lies in the component, and not in who was asked for it. -/
def LoadFailure.OfComponent : LoadFailure → Prop
  | .unsupportedExtension _ _ => False
  | .notInstalled => False
  | _ => True

namespace Compiler
variable {env : Environment} (c : Compiler) (path dir : Path)

theorem realPathFails : FailsOnly LoadFailure.OfComponent (realPath env path) := by
  intro e failed
  unfold realPath at failed
  split at failed
  · cases failed
    trivial
  · split at failed
    · contradiction
    · cases failed
      trivial

theorem partsFail (sections : List Section) :
    FailsOnly LoadFailure.OfComponent (Parts.ofSections path sections) := by
  refine failsFold (fun p s e failed => ?_) sections _
  unfold Parts.add at failed
  split at failed
  · split at failed <;> cases failed
    trivial
  · split at failed
    · split at failed <;> cases failed
      trivial
    · contradiction

theorem textFails (s : Section) : FailsOnly LoadFailure.OfComponent (textOf env dir s) := by
  unfold textOf
  split
  · exact failsOk _
  · exact failsAs (fun _ => trivial) _

theorem sectionFails (s : Section) (lang : Text) :
    FailsOnly LoadFailure.OfComponent (c.compileSection env path dir s lang) :=
  failsBind (textFails dir s) fun _ => failsAs (fun _ => trivial) _

theorem styleFails (s : Section) : FailsOnly LoadFailure.OfComponent (styleOf env dir s) :=
  failsBind (textFails dir s) fun _ => failsOk _

theorem scriptFails (part : Option Section) :
    FailsOnly LoadFailure.OfComponent (c.compileScript env path dir part) := by
  cases part with
  | some s => exact sectionFails c path dir s _
  | none => exact failsOk _

theorem templateFails (part : Option Section) :
    FailsOnly LoadFailure.OfComponent (c.compileTemplate env path dir part) := by
  cases part with
  | some s => exact failsMap _ (sectionFails c path dir s _)
  | none => exact failsOk _

theorem compileFails : FailsOnly LoadFailure.OfComponent (c.compile env path) := by
  refine failsBind (realPathFails path) fun canonical => ?_
  refine failsBind (failsAs (fun _ => trivial) _) fun source => ?_
  refine failsBind (failsAs (fun _ => trivial) _) fun sections => ?_
  refine failsBind (partsFail canonical sections) fun parts => ?_
  refine failsBind (scriptFails c canonical _ parts.script) fun script => ?_
  refine failsBind (templateFails c canonical _ parts.template) fun template => ?_
  exact failsBind (failsEach (styleFails _) parts.styles) fun _ => failsOk _

end Compiler

theorem Loader.rememberCompiler (l : Loader) (m : ComponentModule) :
    (l.remember m).compiler = l.compiler := by
  unfold Loader.remember
  cases m.map <;> rfl

namespace ModuleSystem
variable {h : ModuleSystem}

def places (h : ModuleSystem) : Finset (List Path.Component) :=
  (h.paths.map Path.components).toFinset

theorem placesInsert (m : ComponentModule) :
    (h.insert m).places = Insert.insert m.path.components h.places := by
  unfold places paths insert
  rw [Table.keysPut]
  split
  · rename_i present
    obtain ⟨path, member, same⟩ := List.any_eq_true.mp present
    rw [Finset.insert_eq_of_mem]
    rw [List.mem_toFinset, ← Path.sameExact.mp same]
    exact List.mem_map_of_mem member
  · rw [List.map_append, List.toFinset_append, Finset.union_comm]
    rfl

theorem placesCount (once : h.modules.Distinct) : h.places.card = h.modules.length := by
  have apart : (h.paths.map Path.components).Nodup := by
    rw [List.nodup_iff_pairwise_ne, List.pairwise_map]
    refine (Table.distinctKeys.mp once).imp fun differ same => ?_
    rw [Path.sameExact.mpr same] at differ
    contradiction
  rw [places, List.toFinset_card_of_nodup apart, List.length_map, paths, Table.keys,
    List.length_map]

end ModuleSystem

namespace CommandLine
variable {env : Environment} {c : Compiler} {files : List Path}

def modulesOf (env : Environment) (c : Compiler) (files : List Path) : List ComponentModule :=
  files.filterMap fun file => (c.compile env file).toOption

def failure? (env : Environment) (c : Compiler) (file : Path) : Option (Path × LoadFailure) :=
  match c.compile env file with
  | .ok _ => none
  | .error e => some (file, e)

structure Accounts (env : Environment) (c : Compiler) (files : List Path) (r : CheckReport) :
    Prop where
  checked : r.checked = files.length
  failures : r.failures = files.filterMap (failure? env c)
  split : files.length = (modulesOf env c files).length + r.failures.length
  loaded : r.loaded = ((modulesOf env c files).map (·.path.components)).toFinset.card
  real : ∀ m ∈ modulesOf env c files, ∃ file ∈ files, realPath env file = .ok m.path

theorem modulesMore (file : Path) : modulesOf env c (files ++ [file]) =
    modulesOf env c files ++ (c.compile env file).toOption.toList := by
  unfold modulesOf
  rw [List.filterMap_append, List.filterMap_cons, List.filterMap_nil]
  cases (c.compile env file).toOption <;> rfl

theorem failuresMore (file : Path) : (files ++ [file]).filterMap (failure? env c) =
    files.filterMap (failure? env c) ++ (failure? env c file).toList := by
  rw [List.filterMap_append, List.filterMap_cons, List.filterMap_nil]
  cases failure? env c file <;> rfl

theorem countSplit (files : List Path) : files.length =
    (modulesOf env c files).length + (files.filterMap (failure? env c)).length := by
  induction files using List.reverseRecOn with
  | nil => rfl
  | append_singleton files file ih =>
    rw [modulesMore, failuresMore, List.length_append, ih]
    unfold failure?
    cases c.compile env file <;> simp [Except.toOption] <;> omega

theorem modulesReal (files : List Path) :
    ∀ m ∈ modulesOf env c files, ∃ file ∈ files, realPath env file = .ok m.path := by
  intro m member
  obtain ⟨file, here, done⟩ := List.mem_filterMap.mp member
  cases outcome : c.compile env file with
  | error e =>
    rw [outcome] at done
    contradiction
  | ok other =>
    rw [outcome] at done
    cases done
    exact ⟨file, here, Compiler.compilePath outcome⟩

def Apart (env : Environment) (c : Compiler) (files : List Path) : Prop :=
  files.Pairwise fun p q => ∀ m n, c.compile env p = .ok m → c.compile env q = .ok n →
    (m.path == n.path) = false

theorem apartExact : ((modulesOf env c files).map (·.path.components)).Nodup ↔ Apart env c files := by
  unfold modulesOf Apart
  rw [List.nodup_iff_pairwise_ne, List.pairwise_map, List.pairwise_filterMap]
  refine List.Pairwise.iff fun p q => ?_
  have differ (m n : ComponentModule) :
      m.path.components ≠ n.path.components ↔ (m.path == n.path) = false := by
    rw [ne_eq, ← Path.sameExact, Bool.not_eq_true]
  cases c.compile env p <;> cases c.compile env q <;> simp [Except.toOption, differ]

namespace Checking
variable {k : Checking} {extension : Text} {file : Path}

structure Through (env : Environment) (c : Compiler) (extension : Text) (files : List Path)
    (k : Checking) : Prop where
  installed : k.installation.installed = true
  handled : k.installation.extension = extension
  compiler : k.installation.loader.compiler = c
  failures : k.failures = files.filterMap (failure? env c)
  once : k.modules.modules.Distinct
  places : k.modules.places = ((modulesOf env c files).map (·.path.components)).toFinset

theorem throughStart (l : Loader) :
    Through env l.compiler l.config.extension [] (start (.ofLoader l)) := by
  have installs : (Installation.ofLoader l).install .empty =
      (⟨l, true⟩, ⟨[l.config.extension], []⟩, true) := Installation.installDone rfl rfl
  unfold start
  rw [installs]
  exact ⟨rfl, rfl, rfl, rfl, .nil, rfl⟩

theorem throughStep (h : Through env c extension files k) (has : file.extension? = some extension) :
    Through env c extension (files ++ [file]) (k.step env file) := by
  have handles : k.installation.handles file = true := by
    rw [Installation.handlesSame, h.handled]
    exact has
  unfold step Installation.loadInto
  rw [Installation.loadHandled h.installed handles, h.compiler]
  cases outcome : c.compile env file with
  | ok m =>
    refine ⟨h.installed, ?_, ?_, ?_, ?_, ?_⟩
    · exact (Installation.loadedExtension m).trans h.handled
    · exact (Loader.rememberCompiler _ m).trans h.compiler
    · rw [failuresMore, failure?, outcome]
      simpa using h.failures
    · exact Table.distinctPut h.once _ _
    · rw [modulesMore, outcome, List.map_append, List.toFinset_append, Finset.union_comm,
        ModuleSystem.placesInsert, h.places]
      rfl
  | error e =>
    refine ⟨h.installed, h.handled, h.compiler, ?_, h.once, ?_⟩
    · rw [failuresMore, failure?, outcome, h.failures]
      rfl
    · rw [modulesMore, outcome, h.places]
      simp [Except.toOption]

theorem throughRun (h : Through env c extension files k) (more : List Path)
    (named : ∀ file ∈ more, file.extension? = some extension) :
    Through env c extension (files ++ more) (k.run env more) := by
  induction more generalizing files k with
  | nil => simpa [run] using h
  | cons file rest ih =>
    have here := throughStep h (named file List.mem_cons_self)
    have later := ih here fun other member => named other (List.mem_cons_of_mem _ member)
    rwa [List.append_assoc] at later

end Checking

theorem componentsExtension {extension : Text} {roots : List Path} :
    ∀ file ∈ components env extension roots, file.extension? = some extension := by
  intro file member
  simpa using (List.mem_filter.mp member).2

def found (env : Environment) (config : Configuration) (workspace : Path) (paths : List Path) :
    List Path :=
  components env config.extension (if paths.isEmpty then [workspace] else paths)

theorem checkCounts (config : Configuration) (workspace : Path) (paths : List Path) :
    Accounts env (Loader.ofConfig config workspace).compiler (found env config workspace paths)
      (check env config workspace paths) := by
  have started : Checking.Through env _ _ [] _ :=
    Checking.throughStart (Loader.ofConfig config workspace)
  have through := Checking.throughRun started (found env config workspace paths) componentsExtension
  rw [List.nil_append] at through
  refine ⟨rfl, through.failures, ?_, ?_, modulesReal _⟩
  · have failures : (check env config workspace paths).failures = _ := through.failures
    rw [failures]
    exact countSplit _
  · have counted := ModuleSystem.placesCount through.once
    rw [through.places] at counted
    exact counted.symm

theorem failureFound {failure : Path × LoadFailure}
    (member : failure ∈ files.filterMap (failure? env c)) :
    failure.1 ∈ files ∧ c.compile env failure.1 = .error failure.2 := by
  obtain ⟨file, here, failed⟩ := List.mem_filterMap.mp member
  unfold failure? at failed
  split at failed
  · contradiction
  · rename_i e outcome
    cases failed
    exact ⟨here, outcome⟩

/- A check tells of every component what became of it. What it counts as loaded falls short of the
components that did not fail by those that were found before as the same file, and agrees with them
exactly if there are none. It ends with one exactly if a component failed, and components fail for
what is in them. -/
theorem componentsAccounted (env : Environment) (config : Configuration) (workspace : Path)
    (paths : List Path) :
    let c := (Loader.ofConfig config workspace).compiler
    let files := found env config workspace paths
    let report := check env config workspace paths
    let outcome := runCheck env config workspace paths
    Accounts env c files report ∧
      report.loaded + report.failures.length ≤ report.checked ∧
      (report.checked = report.loaded + report.failures.length ↔ Apart env c files) ∧
      (∀ failure ∈ report.failures, failure.1 ∈ files ∧ failure.2.OfComponent) ∧
      outcome.stdout = report.summary ∧
      outcome.code = if 0 < report.failures.length then 1 else 0 := by
  intro c files report outcome
  have accounts : Accounts env c files report := checkCounts config workspace paths
  have below : report.loaded ≤ (modulesOf env c files).length := by
    rw [accounts.loaded, ← List.length_map (f := (·.path.components))]
    exact List.toFinset_card_le _
  refine ⟨accounts, ?_, ?_, ?_, rfl, ?_⟩
  · have split := accounts.split
    rw [accounts.checked]
    omega
  · rw [accounts.checked, accounts.split, Nat.add_right_cancel_iff, accounts.loaded, ← apartExact,
      eq_comm, ← List.length_map (f := (·.path.components))]
    exact Multiset.toFinset_card_eq_card_iff_nodup
  · intro failure member
    rw [accounts.failures] at member
    obtain ⟨here, failed⟩ := failureFound member
    exact ⟨here, c.compileFails failure.1 failure.2 failed⟩
  · show (if report.failures.isEmpty then 0 else 1) = _
    cases report.failures <;> rfl

section Samples

def single : Environment :=
  let name (t : Text) : Files.Name := Utf8.encode t
  ⟨[([name "w"], .directory), ([name "w", name "A.vue"], .file [])],
    [name "w"], [], ⟨['/']⟩⟩

/- A component that is asked for twice loads both times, and counts as loaded once. -/
theorem repeatedComponent :
    let report := check single .default ⟨"."⟩ [⟨"A.vue"⟩, ⟨"A.vue"⟩]
    report.checked = 2 ∧ report.loaded = 1 ∧ report.failures = [] ∧
      (runCheck single .default ⟨"."⟩ [⟨"A.vue"⟩, ⟨"A.vue"⟩]).stdout =
        "Checked 2 components: 1 loaded, 0 failed\n" := by
  intro report
  have files : found single .default ⟨"."⟩ [⟨"A.vue"⟩, ⟨"A.vue"⟩] = [⟨"A.vue"⟩, ⟨"A.vue"⟩] := by
    with_unfolding_all rfl
  have real : realPath single ⟨"A.vue"⟩ = .ok ⟨"/w/A.vue"⟩ := by with_unfolding_all rfl
  have read : single.read ⟨"/w/A.vue"⟩ = .ok [] := by rfl
  have loads := (Loader.ofConfig .default ⟨"."⟩).compiler.compileEmpty real read
  have accounts : Accounts single _ _ (check single .default ⟨"."⟩ [⟨"A.vue"⟩, ⟨"A.vue"⟩]) :=
    checkCounts .default ⟨"."⟩ [⟨"A.vue"⟩, ⟨"A.vue"⟩]
  rw [files] at accounts
  obtain ⟨checked, failures, -, loaded, -⟩ := accounts
  simp only [modulesOf, failure?, List.filterMap_cons, List.filterMap_nil, loads] at failures loaded
  have counts : report = ⟨2, 1, []⟩ :=
    calc report = ⟨report.checked, report.loaded, report.failures⟩ := rfl
      _ = ⟨2, 1, []⟩ := by rw [checked, loaded, failures]; rfl
  refine ⟨congrArg _ counts, congrArg _ counts, congrArg _ counts, ?_⟩
  show report.summary = _
  rw [counts]
  decide +kernel

end Samples
end CommandLine
end ComponentFile
