import ComponentFile.Plugin.Command
import ComponentFile.Text.Quoted

/-! Languages and the plugins that handle them. Plugins of this process come first, then commands,
then programs found by name. Languages are the same up to ASCII case, and the last entry for one
counts. -/
namespace ComponentFile

def installedName (lang : Text) : Text := "sfc-transpile-" ++ Text.lower lang

inductive PluginSearch where
  | environment
  | directories (searchPath : Text)
  | disabled
  deriving DecidableEq, Repr

structure PluginSet where
  plugins : Table Text Plugin
  commands : Table Text ExternalCommand
  search : PluginSearch

namespace PluginSet

def empty : PluginSet := ⟨[], [], .environment⟩

def add (s : PluginSet) (lang : Text) (t : Plugin) : PluginSet :=
  { s with plugins := s.plugins.put (Text.lower lang) t }

def addCommand (s : PluginSet) (lang : Text) (c : ExternalCommand) : PluginSet :=
  { s with commands := s.commands.put (Text.lower lang) c }

inductive Handler where
  | inProcess (t : Plugin)
  | command (name : Text) (c : ExternalCommand)

def Handler.transform (env : Files.Environment) : Handler → Plugin
  | .inProcess t => t
  | .command name c => fun text options => (c.run env name text options).mapError .known

def findInstalled (env : Files.Environment) (search : PluginSearch) (name : Text) : Option Path :=
  match search with
  | .environment => env.installedProgram name env.searchPath
  | .directories searchPath => env.installedProgram name searchPath
  | .disabled => none

def handlerFor (env : Files.Environment) (s : PluginSet) (lang : Text) :
    Except CompileError Handler :=
  let key := Text.lower lang
  let name := installedName key
  match s.plugins.get? key with
  | some t => .ok (.inProcess t)
  | none =>
      match s.commands.get? key with
      | some c => .ok (.command name c)
      | none =>
          match findInstalled env s.search name with
          | some path => .ok (.command name ⟨path, []⟩)
          | none => .error (.pluginNotFound key)

def describeCommand (c : ExternalCommand) : Text :=
  "PluginCommand \x7b command: " ++ Quoted.text c.command.text ++ ", args: " ++
    Quoted.list (c.arguments.map Quoted.text) ++ " \x7d"

def describeSearch : PluginSearch → Text
  | .environment => "Env"
  | .directories searchPath => "Dirs(" ++ Quoted.text searchPath ++ ")"
  | .disabled => "Disabled"

def describe (s : PluginSet) : Text :=
  let langs := s.plugins.keys.mergeSort fun a b => !Text.before b a
  let commands := s.commands.map fun (lang, c) => Quoted.text lang ++ ": " ++ describeCommand c
  "PluginRegistry \x7b plugins: " ++ Quoted.list (langs.map Quoted.text) ++ ", commands: \x7b" ++
    List.intercalate ", ".toList commands ++ "\x7d, lookup: " ++ describeSearch s.search ++ " \x7d"

end PluginSet
end ComponentFile
