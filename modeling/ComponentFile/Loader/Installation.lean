import ComponentFile.Loader.Basic
import ComponentFile.Loader.ModuleSystem

/-! A loader's place in a module system. While it is installed it handles the files of its
extension; when it leaves, every module with that extension goes too. -/
namespace ComponentFile
open Files (Environment)

structure Installation where
  loader : Loader
  installed : Bool

namespace Installation

def ofLoader (l : Loader) : Installation := ⟨l, false⟩

def extension (r : Installation) : Text := r.loader.config.extension

def handles (r : Installation) (path : Path) : Bool := path.extension? == some r.extension

def install (r : Installation) (h : ModuleSystem) : Installation × ModuleSystem × Bool :=
  if r.installed then (r, h, false)
  else
    match h.claim r.extension with
    | (h, true) => ({ r with installed := true }, h, true)
    | (_, false) => (r, h, false)

def uninstall (r : Installation) (h : ModuleSystem) : Installation × ModuleSystem × Bool :=
  if r.installed then
    let released := h.release r.extension
    let left := (released.paths.filter r.handles).foldl ModuleSystem.erase released
    (⟨r.loader.forgetMaps, false⟩, left, true)
  else (r, h, false)

def load (env : Environment) (r : Installation) (path : Path) :
    Installation × Except LoadFailure ComponentModule :=
  if !r.installed then (r, .error .notInstalled)
  else if !r.handles path then (r, .error (.unsupportedExtension path r.extension))
  else
    let (loader, result) := r.loader.load env path
    ({ r with loader := loader }, result)

def loadInto (env : Environment) (r : Installation) (h : ModuleSystem) (path : Path) :
    Installation × ModuleSystem × Except LoadFailure Unit :=
  match r.load env path with
  | (r, .ok m) => (r, h.insert m, .ok ())
  | (r, .error e) => (r, h, .error e)

end Installation
end ComponentFile
