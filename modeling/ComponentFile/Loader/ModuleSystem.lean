import ComponentFile.Loader.Component

/-! The module system that components are loaded into. It gives each extension to one handler and
lists modules in the order in which their paths were first put in. -/
namespace ComponentFile

structure ModuleSystem where
  extensions : List Text
  modules : Table Path ComponentModule

namespace ModuleSystem

def empty : ModuleSystem := ⟨[], []⟩

def isClaimed (h : ModuleSystem) (extension : Text) : Bool := h.extensions.contains extension

def claim (h : ModuleSystem) (extension : Text) : ModuleSystem × Bool :=
  if h.isClaimed extension then (h, false)
  else ({ h with extensions := h.extensions ++ [extension] }, true)

def release (h : ModuleSystem) (extension : Text) : ModuleSystem :=
  { h with extensions := h.extensions.filter (· ≠ extension) }

def insert (h : ModuleSystem) (m : ComponentModule) : ModuleSystem :=
  { h with modules := h.modules.put m.path m }

def erase (h : ModuleSystem) (path : Path) : ModuleSystem := { h with modules := h.modules.erase path }

def get? (h : ModuleSystem) (path : Path) : Option ComponentModule := h.modules.get? path

def paths (h : ModuleSystem) : List Path := h.modules.keys

end ModuleSystem
end ComponentFile
