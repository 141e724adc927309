import ComponentFile.Loader.Installation

/-! A module system that several loaders share, on a machine whose files may change at any time.
Some of the loaders can be installed, the others only load. A session goes from one operation to
the next; what an operation shows is its answer. -/
namespace ComponentFile
open Files (Environment)

inductive Target where
  | loader (l : Loader)
  | installation (i : Installation)

def Target.toLoader : Target → Loader
  | .loader l => l
  | .installation i => i.loader

structure Session where
  env : Environment
  modules : ModuleSystem
  targets : List Target

inductive Operation where
  | change (f : Environment → Environment)
  | isClaimed (extension : Text)
  | claim (extension : Text)
  | release (extension : Text)
  | insert (m : ComponentModule)
  | erase (path : Path)
  | modules
  | get (path : Path)
  | load (target : Nat) (path : Path)
  | loadInto (target : Nat) (path : Path)
  | install (target : Nat)
  | uninstall (target : Nat)
  | isInstalled (target : Nat)
  | extension (target : Nat)
  | forgetMaps (target : Nat)
  | mapOf (target : Nat) (path : Path)
  | trace (target : Nat) (path : Path) (p : Position)
  | cached (target : Nat)

inductive Answer where
  | none
  | flag (b : Bool)
  | count (n : Nat)
  | text (t : Text)
  | paths (ps : List Path)
  | found (m : Option ComponentModule)
  | loaded (result : Except LoadFailure ComponentModule)
  | required (result : Except LoadFailure Unit)
  | map (m : Option SourceMap)
  | entry (e : Option SourceMap.Entry)

namespace Session

def start (env : Environment) (targets : List Target) : Session := ⟨env, .empty, targets⟩

def withTarget (s : Session) (i : Nat) (t : Target) : Session :=
  { s with targets := s.targets.set i t }

def loadTarget (s : Session) (i : Nat) (path : Path) : Session × Answer :=
  match s.targets[i]? with
  | some (.loader l) =>
      let (l, result) := l.load s.env path
      (s.withTarget i (.loader l), .loaded result)
  | some (.installation r) =>
      let (r, result) := r.load s.env path
      (s.withTarget i (.installation r), .loaded result)
  | none => (s, .none)

def onInstallation (s : Session) (i : Nat)
    (f : Installation → Installation × ModuleSystem × Answer) : Session × Answer :=
  match s.targets[i]? with
  | some (.installation r) =>
      let (r, modules, answer) := f r
      ({ s with modules := modules }.withTarget i (.installation r), answer)
  | _ => (s, .none)

def asked (s : Session) (i : Nat) (f : Loader → Answer) : Session × Answer :=
  match s.targets[i]? with
  | some t => (s, f t.toLoader)
  | none => (s, .none)

def step (s : Session) : Operation → Session × Answer
  | .change f => ({ s with env := f s.env }, .none)
  | .isClaimed extension => (s, .flag (s.modules.isClaimed extension))
  | .claim extension =>
      let (modules, new) := s.modules.claim extension
      ({ s with modules := modules }, .flag new)
  | .release extension =>
      ({ s with modules := s.modules.release extension }, .none)
  | .insert m => ({ s with modules := s.modules.insert m }, .none)
  | .erase path => ({ s with modules := s.modules.erase path }, .none)
  | .modules => (s, .paths s.modules.paths)
  | .get path => (s, .found (s.modules.get? path))
  | .load i path => s.loadTarget i path
  | .loadInto i path =>
      s.onInstallation i fun r =>
        let (r, modules, result) := r.loadInto s.env s.modules path
        (r, modules, .required result)
  | .install i =>
      s.onInstallation i fun r =>
        let (r, modules, new) := r.install s.modules
        (r, modules, .flag new)
  | .uninstall i =>
      s.onInstallation i fun r =>
        let (r, modules, was) := r.uninstall s.modules
        (r, modules, .flag was)
  | .isInstalled i => s.onInstallation i fun r => (r, s.modules, .flag r.installed)
  | .extension i => s.onInstallation i fun r => (r, s.modules, .text r.extension)
  | .forgetMaps i =>
      match s.targets[i]? with
      | some (.loader l) => (s.withTarget i (.loader l.forgetMaps), .none)
      | _ => (s, .none)
  | .mapOf i path => s.asked i fun l => .map (l.mapOf s.env path)
  | .trace i path p => s.asked i fun l => .entry (l.trace s.env path p)
  | .cached i => s.asked i fun l => .count l.maps.length

def run (s : Session) : List Operation → Session × List Answer
  | [] => (s, [])
  | op :: rest =>
      let (next, answer) := s.step op
      let (last, answers) := run next rest
      (last, answer :: answers)

end Session
end ComponentFile
