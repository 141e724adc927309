import ComponentFile.Files.Environment
import ComponentFile.Mapping.Document
import ComponentFile.Script.TokenMap

/-! What a plugin is given and what it gives back: the text of one section with options, and
compiled text with a map or the reason why there is none. -/
namespace ComponentFile

/-- `offset` is the line on which the text begins, or zero for a file of its own. `extra` is the
user's own configuration for the language. -/
structure CompileOptions where
  file : Text
  maps : Bool
  offset : Nat
  extra : Json.Value
  deriving Repr

namespace CompileOptions

def default : CompileOptions := ⟨[], false, 0, .object []⟩

def toValue (o : CompileOptions) : Json.Value :=
  .record [("file", .string o.file), ("maps", .bool o.maps), ("offset", .int o.offset),
    ("extra", o.extra)]

def toJson (o : CompileOptions) : Text := o.toValue.render

end CompileOptions

structure CompiledText where
  text : Text
  map : Option SourceMap
  deriving DecidableEq, Repr

def CompiledText.unchanged (t : Text) : CompiledText := ⟨t, none⟩

inductive OutputFault where
  | json
  | map (e : MapError)
  deriving DecidableEq, Repr

def OutputFault.message : OutputFault → Text
  | .json => "invalid JSON"
  | .map e => "invalid source map: " ++ e.message

inductive CompileError where
  | pluginNotFound (lang : Text)
  | missingPlugin (lang plugin : Text)
  | invalidOffset (e : TokenMap.InvalidOffset)
  | spawn (plugin : Text) (fault : Files.FileFault)
  | commandFailed (plugin : Text) (status : UInt8) (stderr : Text)
  | invalidOutput (plugin : Text) (fault : OutputFault)
  | foreign (message : Text)
  deriving DecidableEq, Repr

namespace CompileError

def message : CompileError → Text
  | .pluginNotFound lang => "no transpiler plugin found for lang `" ++ lang ++ "`"
  | .missingPlugin lang plugin =>
      "lang `" ++ lang ++ "` requires the `" ++ plugin ++ "` plugin, which is not installed"
  | .invalidOffset e => e.message
  | .spawn plugin fault => "failed to run plugin `" ++ plugin ++ "`: " ++ fault.message
  | .commandFailed plugin status stderr =>
      "plugin `" ++ plugin ++ "` exited with exit status: " ++ Text.ofNat status.toNat ++ ": " ++ stderr
  | .invalidOutput plugin fault =>
      "plugin `" ++ plugin ++ "` produced invalid output: " ++ fault.message
  | .foreign message => message

def code? : CompileError → Option Text
  | .missingPlugin _ _ => some "sfc::missing_plugin"
  | .invalidOffset _ => some "sfc::invalid_offset"
  | _ => none

def help? : CompileError → Option Text
  | .missingPlugin lang plugin =>
      some ("install it with `cargo install " ++ plugin ++ "`, or configure a command for `" ++ lang ++
        "` under `plugins`")
  | _ => none

end CompileError

/-- How a plugin fails: with an error of this library, or with a message of its own. -/
inductive PluginFailure where
  | known (e : CompileError)
  | foreign (message : Text)
  deriving DecidableEq, Repr

def PluginFailure.toError : PluginFailure → CompileError
  | .known e => e
  | .foreign message => .foreign message

abbrev Plugin := Text → CompileOptions → Except PluginFailure CompiledText

end ComponentFile
