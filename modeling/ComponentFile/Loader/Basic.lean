import ComponentFile.Loader.Component

/-! A loader: a compiler of components that remembers the map of each one's script, so that
positions of compiled code can be traced back. -/
namespace ComponentFile
open Files (Environment)

structure Loader where
  compiler : Compiler
  maps : Table Path SourceMap

namespace Loader

def fresh (config : Configuration) (plugins : PluginSet) : Loader := ⟨⟨config, plugins⟩, []⟩

def ofConfig (config : Configuration) (base : Path) : Loader := fresh config (config.pluginSet base)

def config (l : Loader) : Configuration := l.compiler.config

def remember (l : Loader) (m : ComponentModule) : Loader :=
  match m.map with
  | some map => { l with maps := l.maps.put m.path map }
  | none => { l with maps := l.maps.erase m.path }

def load (env : Environment) (l : Loader) (path : Path) : Loader × Except LoadFailure ComponentModule :=
  match l.compiler.compile env path with
  | .ok m => (l.remember m, .ok m)
  | .error e => (l, .error e)

def mapOf (env : Environment) (l : Loader) (path : Path) : Option SourceMap :=
  match realPath env path with
  | .ok canonical => l.maps.get? canonical
  | .error _ => l.maps.get? path

def trace (env : Environment) (l : Loader) (path : Path) (p : Position) :
    Option SourceMap.Entry := do
  let map ← l.mapOf env path
  let mapping ← map.covering? p
  map.entry? mapping

def forgetMaps (l : Loader) : Loader := { l with maps := [] }

end Loader
end ComponentFile
