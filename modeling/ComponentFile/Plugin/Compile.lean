import ComponentFile.Plugin.Set

/-! Compiling the text of a section in its language. A plugin always comes first; the two languages
that need none pass through as they are. -/
namespace ComponentFile

inductive PlainLang where
  | script
  | markup
  deriving DecidableEq, Repr

def scriptLang : Text := "js"

def markupLang : Text := "html"

def plainLang? (lang : Text) : Option PlainLang :=
  let key := Text.lower lang
  if key = [] ∨ key = scriptLang ∨ key = "javascript" then some .script
  else if key = markupLang then some .markup
  else none

/-- What happens to a language without a plugin: script passes with a dense map if one is asked
for and the text begins on a line of the component, markup passes without. -/
def passThrough (lang text : Text) (options : CompileOptions) : Except CompileError CompiledText :=
  match plainLang? lang with
  | some .script =>
      if options.maps && 0 < options.offset then
        match TokenMap.ofScript text options.file options.offset with
        | .ok m => .ok ⟨text, some m⟩
        | .error e => .error (.invalidOffset e)
      else .ok (.unchanged text)
  | some .markup => .ok (.unchanged text)
  | none => .error (.missingPlugin lang (installedName lang))

def compileText (env : Files.Environment) (s : PluginSet) (lang text : Text)
    (options : CompileOptions) : Except CompileError CompiledText :=
  match s.handlerFor env lang with
  | .ok handler => (handler.transform env text options).mapError PluginFailure.toError
  | .error (.pluginNotFound _) => passThrough lang text options
  | .error e => .error e

end ComponentFile
