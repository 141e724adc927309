import ComponentFile.Plugin.Compile

/-! The configuration of a loader, read from a JSON file in the workspace. Every field may be left
out. Commands and options keep the order of the file. -/
namespace ComponentFile
open Json (Node Value)

structure Configuration where
  extension : Text
  maps : Bool
  plugins : Table Text ExternalCommand
  options : Table Text Value
  deriving Repr

inductive ConfigurationError where
  | read (path : Path) (fault : Files.FileFault)
  | parse (path : Path)
  deriving Repr

def ConfigurationError.message : ConfigurationError → Text
  | .read path fault => "failed to read " ++ path.text ++ ": " ++ fault.message
  | .parse path => "failed to parse " ++ path.text

namespace Configuration

def default : Configuration := ⟨"vue", true, [], []⟩

def fileNames : List Text := ["sfc-loader.json", ".sfc-loader.json"]

def commandOf? (n : Node) : Option ExternalCommand :=
  match n.fields? ["command", "args"] with
  | some [some command, arguments] => do
      let command ← command.text?
      let arguments ← (arguments.getD (.array [])).list? Node.text?
      some ⟨⟨command⟩, arguments⟩
  | _ => none

def fieldOr {α : Type} (given : Option Node) (otherwise : α) (read? : Node → Option α) : Option α :=
  match given with
  | some n => read? n
  | none => some otherwise

def ofNode? (n : Node) : Option Configuration :=
  match n.fields? ["extension", "maps", "plugins", "options"] with
  | some [extension, maps, plugins, options] => do
      let extension ← fieldOr extension default.extension Node.text?
      let maps ← fieldOr maps default.maps Node.bool?
      let plugins ← fieldOr plugins [] (Node.table? commandOf?)
      let options ← fieldOr options [] (Node.table? (Node.freeValue? 2))
      some ⟨extension, maps, plugins, options⟩
  | _ => none

def ofFile (env : Files.Environment) (path : Path) : Except ConfigurationError Configuration :=
  match env.readText path with
  | .error fault => .error (.read path fault)
  | .ok content =>
      match (Node.ofText? content).bind ofNode? with
      | none => .error (.parse path)
      | some c => .ok { c with extension := c.extension.dropWhile (· = '.') }

/-- The first file of the workspace that exists decides; one that cannot be read gives defaults. -/
def ofWorkspace (env : Files.Environment) (workspace : Path) : Configuration :=
  match (fileNames.map workspace.join).find? env.holds with
  | none => default
  | some path =>
      match ofFile env path with
      | .ok c => c
      | .error _ => default

def extra (c : Configuration) (lang : Text) : Value := (c.options.get? lang).getD (.object [])

def placed (base : Path) (c : ExternalCommand) : ExternalCommand :=
  if !c.command.isAbsolute && 1 < c.command.components.length then
    { c with command := base.join c.command.text }
  else c

def pluginSet (c : Configuration) (base : Path) : PluginSet :=
  c.plugins.foldl (fun r (lang, command) => r.addCommand lang (placed base command)) .empty

def commandValue (c : ExternalCommand) : Value :=
  .record [("command", .string c.command.text), ("args", .array (c.arguments.map .string))]

def toValue (c : Configuration) : Value :=
  .record [("extension", .string c.extension), ("maps", .bool c.maps),
    ("plugins", .object (c.plugins.map fun (lang, command) => (lang, commandValue command))),
    ("options", .object c.options)]

end Configuration
end ComponentFile
