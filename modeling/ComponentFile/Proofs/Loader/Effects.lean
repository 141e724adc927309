import ComponentFile.Loader.Session
import ComponentFile.Proofs.Loader.Cache

/-! What the operations of a session do to the loaders and to the extensions that are claimed. An
operation leaves every target alone or replaces one of them. -/
namespace ComponentFile
open Files (Environment)

theorem Compiler.compileEmpty {env : Environment} {path canonical : Path} (c : Compiler)
    (real : realPath env path = .ok canonical) (read : env.read canonical = .ok []) :
    c.compile env path = .ok ⟨canonical, [], none, none, []⟩ := by
  have bare : sectionsOfBytes [] componentTags = .ok [] := by with_unfolding_all rfl
  simp only [compile, compileAt, real, read, bare, Except.mapError, bind, Except.bind]
  rfl

namespace ModuleSystem

def apart (h : ModuleSystem) (extension : Text) : Table Path ComponentModule :=
  h.modules.filter fun entry => entry.1.extension? ≠ some extension

def without (h : ModuleSystem) (extension : Text) : ModuleSystem :=
  ⟨h.extensions.filter (· ≠ extension), h.apart extension⟩

theorem eraseAll (paths : List Path) (h : ModuleSystem) : paths.foldl erase h =
    { h with modules := h.modules.filter fun entry => !paths.any (entry.1 == ·) } := by
  induction paths generalizing h with
  | nil =>
    have all : h.modules.filter (fun _ => true) = h.modules := List.filter_eq_self.mpr (by simp)
    simp [all]
  | cons path rest ih =>
    rw [List.foldl_cons, ih]
    simp only [erase, Table.erase, List.filter_filter, List.any_cons, Bool.not_or, Bool.and_comm]

end ModuleSystem

namespace Installation
variable {r : Installation} {h : ModuleSystem}

theorem handlesSame {path : Path} : r.handles path = true ↔ path.extension? = some r.extension := by
  simp [handles]

theorem loadedExtension (m : ComponentModule) :
    { r with loader := r.loader.remember m }.extension = r.extension := by
  unfold extension Loader.config Loader.remember
  cases m.map <;> rfl

theorem installRefused (busy : r.installed = true ∨ h.isClaimed r.extension = true) :
    r.install h = (r, h, false) := by
  unfold install ModuleSystem.claim
  rcases busy with installed | claimed
  · rw [if_pos installed]
  · rw [if_pos claimed, ite_self]

theorem installDone (idle : r.installed = false) (free : h.isClaimed r.extension = false) :
    r.install h =
      ({ r with installed := true }, { h with extensions := h.extensions ++ [r.extension] }, true) := by
  unfold install ModuleSystem.claim
  rw [if_neg (by simp [idle]), if_neg (by simp [free])]

theorem uninstallRefused (idle : r.installed = false) : r.uninstall h = (r, h, false) := by
  unfold uninstall
  rw [if_neg (by simp [idle])]

theorem loadHandled {env : Environment} {path : Path} (installed : r.installed = true)
    (handled : r.handles path = true) :
    r.load env path = match r.loader.compiler.compile env path with
      | .ok m => ({ r with loader := r.loader.remember m }, .ok m)
      | .error e => (r, .error e) := by
  unfold load Loader.load
  rw [if_neg (by simp [installed]), if_neg (by simp [handled])]
  cases r.loader.compiler.compile env path <;> rfl

/- A path that is the same as one with the extension has it too, so taking out the listed paths
one by one takes out the modules of the extension and no other. -/
theorem uninstallDone (installed : r.installed = true) :
    r.uninstall h = (⟨r.loader.forgetMaps, false⟩, h.without r.extension, true) := by
  have listed : ∀ entry ∈ h.modules,
      (!(h.modules.keys.filter r.handles).any (entry.1 == ·)) =
        decide (entry.1.extension? ≠ some r.extension) := by
    intro entry member
    rw [Bool.eq_iff_iff, Bool.not_eq_true', decide_eq_true_iff, ← Bool.not_eq_true, List.any_eq_true]
    refine not_congr ⟨?_, fun extension => ?_⟩
    · rintro ⟨path, member, same⟩
      rw [Path.sameExtension same]
      exact handlesSame.mp (List.mem_filter.mp member).2
    · exact ⟨entry.1, List.mem_filter.mpr ⟨List.mem_map_of_mem member, handlesSame.mpr extension⟩,
        BEq.rfl⟩
  unfold uninstall
  rw [if_pos installed]
  simp only [ModuleSystem.eraseAll]
  unfold ModuleSystem.without ModuleSystem.apart
  rw [← List.filter_congr listed]
  rfl

end Installation

def Operation.Claims : Operation → Bool
  | .claim _ => true
  | .release _ => true
  | _ => false

namespace Session

inductive Effect (s : Session) (op : Operation) (next : Session) : Prop where
  | shared (targets : next.targets = s.targets)
      (extensions : op.Claims = false → next.modules.extensions = s.modules.extensions)
  | loader {i l l'} (here : s.targets[i]? = some (.loader l))
      (targets : next.targets = s.targets.set i (.loader l'))
      (extensions : next.modules.extensions = s.modules.extensions)
  | loads {i r m} (here : s.targets[i]? = some (.installation r)) (installed : r.installed = true)
      (targets : next.targets =
        s.targets.set i (.installation { r with loader := r.loader.remember m }))
      (extensions : next.modules.extensions = s.modules.extensions)
  | installs {i r} (here : s.targets[i]? = some (.installation r)) (idle : r.installed = false)
      (free : s.modules.isClaimed r.extension = false)
      (targets : next.targets = s.targets.set i (.installation { r with installed := true }))
      (extensions : next.modules.extensions = s.modules.extensions ++ [r.extension])
  | uninstalls {i r} (here : s.targets[i]? = some (.installation r)) (installed : r.installed = true)
      (targets : next.targets = s.targets.set i (.installation ⟨r.loader.forgetMaps, false⟩))
      (extensions : next.modules.extensions = s.modules.extensions.filter (· ≠ r.extension))

section Steps
variable {s : Session} {op : Operation} {i : Nat} {r : Installation} {t u : Target}

theorem withTargetSame (here : s.targets[i]? = some t) : s.withTarget i t = s := by
  obtain ⟨inside, rfl⟩ := List.getElem?_eq_some_iff.mp here
  unfold withTarget
  rw [List.set_getElem_self]

theorem targetSet (here : s.targets[i]? = some t) (j : Nat) :
    (s.targets.set i u)[j]? = if i = j then some u else s.targets[j]? := by
  have inside : i < s.targets.length := (List.getElem?_eq_some_iff.mp here).1
  rw [List.getElem?_set, if_pos inside]

theorem installStep (here : s.targets[i]? = some (.installation r)) (idle : r.installed = false)
    (free : s.modules.isClaimed r.extension = false) :
    s.step (.install i) =
      (⟨s.env, ⟨s.modules.extensions ++ [r.extension], s.modules.modules⟩,
        s.targets.set i (.installation { r with installed := true })⟩, .flag true) := by
  simp only [step, onInstallation, here, Installation.installDone idle free, withTarget]

theorem installRefusedStep (here : s.targets[i]? = some (.installation r))
    (busy : r.installed = true ∨ s.modules.isClaimed r.extension = true) :
    s.step (.install i) = (s, .flag false) := by
  simp only [step, onInstallation, here, Installation.installRefused busy]
  exact congrArg (·, _) (withTargetSame here)

theorem loadIntoStep {path : Path} {m : ComponentModule}
    (here : s.targets[i]? = some (.installation r)) (installed : r.installed = true)
    (handled : r.handles path = true) (compiled : r.loader.compiler.compile s.env path = .ok m) :
    s.step (.loadInto i path) = (⟨s.env, s.modules.insert m,
      s.targets.set i (.installation { r with loader := r.loader.remember m })⟩,
      .required (.ok ())) := by
  simp only [step, onInstallation, here, Installation.loadInto,
    Installation.loadHandled installed handled, compiled, withTarget]

theorem uninstallStep (here : s.targets[i]? = some (.installation r)) (installed : r.installed = true) :
    s.step (.uninstall i) =
      (⟨s.env, s.modules.without r.extension,
        s.targets.set i (.installation ⟨r.loader.forgetMaps, false⟩)⟩, .flag true) := by
  simp only [step, onInstallation, here, Installation.uninstallDone installed, withTarget]

theorem uninstallRefusedStep (here : s.targets[i]? = some (.installation r))
    (idle : r.installed = false) : s.step (.uninstall i) = (s, .flag false) := by
  simp only [step, onInstallation, here, Installation.uninstallRefused idle]
  exact congrArg (·, _) (withTargetSame here)

theorem effectStill : Effect s op s := .shared rfl fun _ => rfl

theorem loadEffect (path : Path) : Effect s op (s.loadTarget i path).1 := by
  unfold loadTarget
  split
  · rename_i l here
    exact .loader here rfl rfl
  · rename_i r here
    rcases Installation.loadCases s.env r path with ⟨e, failed⟩ | ⟨m, installed, _, _, done⟩
    · simp only [failed, withTargetSame here]
      exact effectStill
    · simp only [done]
      exact .loads here installed rfl rfl
  · exact effectStill

theorem onInstallationEffect {f : Installation → Installation × ModuleSystem × Answer}
    (does : ∀ r, s.targets[i]? = some (.installation r) →
      Effect s op ({ s with modules := (f r).2.1 }.withTarget i (.installation (f r).1))) :
    Effect s op (s.onInstallation i f).1 := by
  unfold onInstallation
  split
  · rename_i r here
    exact does r here
  · exact effectStill

theorem stillEffect (here : s.targets[i]? = some (.installation r)) :
    Effect s op ({ s with modules := s.modules }.withTarget i (.installation r)) := by
  have same : { s with modules := s.modules }.withTarget i (.installation r) = s :=
    withTargetSame here
  rw [same]
  exact effectStill

theorem loadIntoEffect (path : Path) : Effect s op (s.step (.loadInto i path)).1 := by
  refine onInstallationEffect fun r here => ?_
  rcases Installation.loadIntoCases s.env r s.modules path with
    ⟨e, failed⟩ | ⟨m, installed, _, _, _, done⟩
  · simp only [failed]
    exact stillEffect here
  · simp only [done]
    exact .loads here installed rfl rfl

theorem installEffect : Effect s op (s.step (.install i)).1 := by
  refine onInstallationEffect fun r here => ?_
  by_cases busy : r.installed = true ∨ s.modules.isClaimed r.extension = true
  · simp only [Installation.installRefused busy]
    exact stillEffect here
  · obtain ⟨idle, free⟩ : r.installed = false ∧ s.modules.isClaimed r.extension = false := by
      simpa using busy
    simp only [Installation.installDone idle free]
    exact .installs here idle free rfl rfl

theorem uninstallEffect : Effect s op (s.step (.uninstall i)).1 := by
  refine onInstallationEffect fun r here => ?_
  cases installed : r.installed with
  | false =>
    simp only [Installation.uninstallRefused installed]
    exact stillEffect here
  | true =>
    simp only [Installation.uninstallDone installed]
    exact .uninstalls here installed rfl rfl

theorem forgetEffect : Effect s op (s.step (.forgetMaps i)).1 := by
  simp only [step]
  split
  · rename_i l here
    exact .loader here rfl rfl
  · exact effectStill

theorem askedEffect (f : Loader → Answer) : Effect s op (s.asked i f).1 := by
  unfold asked
  split
  · exact effectStill
  · exact effectStill

theorem stepEffect (s : Session) (op : Operation) : Effect s op (s.step op).1 := by
  cases op with
  | change f => exact .shared rfl fun _ => rfl
  | claim extension => exact .shared rfl (fun quiet => by contradiction)
  | release extension => exact .shared rfl (fun quiet => by contradiction)
  | insert m => exact .shared rfl fun _ => rfl
  | erase path => exact .shared rfl fun _ => rfl
  | isClaimed extension => exact effectStill
  | modules => exact effectStill
  | get path => exact effectStill
  | load i path => exact loadEffect path
  | loadInto i path => exact loadIntoEffect path
  | install i => exact installEffect
  | uninstall i => exact uninstallEffect
  | isInstalled i => exact onInstallationEffect fun r here => stillEffect here
  | extension i => exact onInstallationEffect fun r here => stillEffect here
  | forgetMaps i => exact forgetEffect
  | mapOf i path => exact askedEffect _
  | trace i path p => exact askedEffect _
  | cached i => exact askedEffect _

end Steps

section Runs
variable {s next : Session} {i j : Nat} {r : Installation} {t u : Target}

theorem runAppend (before rest : List Operation) :
    (s.run (before ++ rest)).1 = ((s.run before).1.run rest).1 := by
  induction before generalizing s with
  | nil => rfl
  | cons op more ih => exact ih

def Keeps (t u : Target) : Prop :=
  ∀ r, t = .installation r → ∃ q, u = .installation q ∧ q.extension = r.extension

theorem keepsInstallation {q : Installation} (same : q.extension = r.extension) :
    Keeps (.installation r) (.installation q) := by
  intro r' one
  cases one
  exact ⟨q, rfl, same⟩

theorem keepsSet (there : s.targets[j]? = some t) (targets : next.targets = s.targets.set j u)
    (keeps : Keeps t u) (here : s.targets[i]? = some (.installation r)) :
    ∃ q, next.targets[i]? = some (.installation q) ∧ q.extension = r.extension := by
  rw [targets, targetSet there]
  split
  · rename_i one
    subst one
    obtain ⟨q, rfl, same⟩ := keeps r (Option.some.inj (there.symm.trans here))
    exact ⟨q, rfl, same⟩
  · exact ⟨r, here, rfl⟩

theorem extensionStep (op : Operation) (here : s.targets[i]? = some (.installation r)) :
    ∃ q, (s.step op).1.targets[i]? = some (.installation q) ∧ q.extension = r.extension := by
  cases stepEffect s op with
  | shared targets extensions =>
    rw [targets]
    exact ⟨r, here, rfl⟩
  | loader there targets extensions => exact keepsSet there targets nofun here
  | @loads j q m there installed targets extensions =>
    exact keepsSet there targets (keepsInstallation (Installation.loadedExtension m)) here
  | installs there idle free targets extensions =>
    exact keepsSet there targets (keepsInstallation rfl) here
  | uninstalls there installed targets extensions =>
    exact keepsSet there targets (keepsInstallation rfl) here

theorem extensionRun (ops : List Operation) (here : s.targets[i]? = some (.installation r)) :
    ∃ q, (s.run ops).1.targets[i]? = some (.installation q) ∧ q.extension = r.extension := by
  induction ops generalizing s r with
  | nil => exact ⟨r, here, rfl⟩
  | cons op rest ih =>
    obtain ⟨q, there, same⟩ := extensionStep op here
    obtain ⟨last, found, still⟩ := ih there
    exact ⟨last, found, still.trans same⟩

end Runs
end Session
end ComponentFile
