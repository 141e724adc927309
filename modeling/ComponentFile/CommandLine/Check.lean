import ComponentFile.Files.Walk
import ComponentFile.Loader.Installation

/-! Loading every component under some paths. A file that two paths lead to is loaded twice but is
one module. -/
namespace ComponentFile.CommandLine
open Files (Environment)

def passedOver : List Text := ["node_modules", "target"]

def passesOver (name : Files.Name) : Bool :=
  match Utf8.decode name with
  | .ok t => t.head? = some '.' || passedOver.contains t
  | .error _ => false

def components (env : Environment) (extension : Text) (paths : List Path) : List Path :=
  (paths.flatMap (env.filesAt passesOver)).filter fun p => p.extension? == some extension

structure Checking where
  installation : Installation
  modules : ModuleSystem
  failures : List (Path × LoadFailure)

namespace Checking

def start (r : Installation) : Checking :=
  let (r, modules, _) := r.install .empty
  ⟨r, modules, []⟩

def step (env : Environment) (c : Checking) (file : Path) : Checking :=
  match c.installation.loadInto env c.modules file with
  | (r, modules, .ok _) => ⟨r, modules, c.failures⟩
  | (r, modules, .error e) => ⟨r, modules, c.failures ++ [(file, e)]⟩

def run (env : Environment) (c : Checking) (files : List Path) : Checking :=
  files.foldl (step env) c

end Checking

structure CheckReport where
  checked : Nat
  loaded : Nat
  failures : List (Path × LoadFailure)
  deriving Repr

def check (env : Environment) (config : Configuration) (workspace : Path) (paths : List Path) :
    CheckReport :=
  let roots := if paths.isEmpty then [workspace] else paths
  let files := components env config.extension roots
  let installation := Installation.ofLoader (Loader.ofConfig config workspace)
  let done := (Checking.start installation).run env files
  ⟨files.length, done.modules.modules.length, done.failures⟩

namespace CheckReport

def summary (r : CheckReport) : Text :=
  "Checked " ++ Text.ofNat r.checked ++ " components: " ++ Text.ofNat r.loaded ++ " loaded, " ++
    Text.ofNat r.failures.length ++ " failed\n"

def failureText (failure : Path × LoadFailure) : Text :=
  failure.1.text ++ "\nError: " ++ failure.2.withCauses ++ "\n\n"

end CheckReport
end ComponentFile.CommandLine
