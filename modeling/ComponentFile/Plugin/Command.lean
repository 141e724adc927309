import ComponentFile.Plugin.Basic

/-! Programs as plugins. The program reads the text, takes the options as its last argument,
and prints a JSON record with the compiled text and a map: an object, a string that holds one, or
nothing. -/
namespace ComponentFile
open Json (Node)

structure ExternalCommand where
  command : Path
  arguments : List Text
  deriving Repr

namespace ExternalCommand

def isWhitespace (c : Char) : Bool :=
  c = ' ' || ('\t' ≤ c && c ≤ '\r') || c = '\u0085' || c = '\u00A0' || c = '\u1680' ||
    ('\u2000' ≤ c && c ≤ '\u200A') || c = '\u2028' || c = '\u2029' || c = '\u202F' || c = '\u205F' ||
    c = '\u3000'

def resultOf? (n : Node) : Option (Text × Option Json.Value) :=
  match n.fields? ["text", "map"] with
  | some [some text, map] => do
      let text ← text.text?
      let map ← (map.getD .null).optional? (Node.freeValue? 1)
      some (text, map)
  | _ => none

def mapDocument : Json.Value → Text
  | .string document => document
  | v => v.render

def readOutput (stdout : Utf8.Bytes) : Except OutputFault CompiledText :=
  match (Node.ofBytes? stdout).bind resultOf? with
  | none => .error .json
  | some (text, none) => .ok ⟨text, none⟩
  | some (text, some map) =>
      match SourceMap.ofJson (mapDocument map) with
      | .ok m => .ok ⟨text, some m⟩
      | .error e => .error (.map e)

def run (env : Files.Environment) (name : Text) (c : ExternalCommand) (text : Text)
    (options : CompileOptions) : Except CompileError CompiledText :=
  match env.run c.command (c.arguments ++ [options.toJson]) text with
  | .error fault => .error (.spawn name fault)
  | .ok done =>
      if done.status ≠ 0 then
        .error (.commandFailed name done.status
          (Text.trim isWhitespace (Utf8.decodeLenient done.stderr)))
      else (readOutput done.stdout).mapError (.invalidOutput name)

end ExternalCommand
end ComponentFile
