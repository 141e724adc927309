import ComponentFile.Loader.Configuration
import ComponentFile.Section.Outline

/-! From a component file to a module: one script and one template at most, each compiled in its
language, and every style as it is. A section with a source has its text in that file. -/
namespace ComponentFile
open Files (Environment FileFault)

structure Style where
  lang : Option Text
  isScoped : Bool
  text : Text
  deriving DecidableEq, Repr

/-- `path` is where the file really is; `code` is empty for a component without script. -/
structure ComponentModule where
  path : Path
  code : Text
  map : Option SourceMap
  template : Option Text
  styles : List Style
  deriving Repr

inductive LoadFailure where
  | read (path : Path) (fault : FileFault)
  | nonUtf8Path (shown : Text)
  | sections (path : Path) (e : SectionError)
  | duplicateSection (path : Path) (tag : Text)
  | compile (path : Path) (tag : Text) (e : CompileError)
  | unsupportedExtension (path : Path) (extension : Text)
  | notInstalled
  deriving Repr

namespace LoadFailure

def message : LoadFailure → Text
  | .read path _ => "failed to read " ++ path.text
  | .nonUtf8Path shown => "path is not valid UTF-8: " ++ shown
  | .sections path _ => "failed to extract sections from " ++ path.text
  | .duplicateSection path tag => path.text ++ " has more than one <" ++ tag ++ "> section"
  | .compile path tag _ => "failed to transpile <" ++ tag ++ "> in " ++ path.text
  | .unsupportedExtension path extension =>
      path.text ++ " is not a `." ++ extension ++ "` component"
  | .notInstalled => "the component loader is not installed"

def code? : LoadFailure → Option Text
  | .sections _ _ => some "sfc::extract"
  | .duplicateSection _ _ => some "sfc::duplicate_section"
  | _ => none

def help? : LoadFailure → Option Text
  | .duplicateSection _ tag => some ("a component may only have one <" ++ tag ++ ">; merge them")
  | _ => none

def causes : LoadFailure → List Text
  | .read _ fault => [fault.message]
  | .sections _ e => [e.message]
  | .compile _ _ (.spawn plugin fault) => [(CompileError.spawn plugin fault).message, fault.message]
  | .compile _ _ e => [e.message]
  | _ => []

def withCauses (e : LoadFailure) : Text := List.intercalate ": ".toList (e.message :: e.causes)

end LoadFailure

def realPath (env : Environment) (path : Path) : Except LoadFailure Path :=
  match env.locate path with
  | .error fault => .error (.read path fault)
  | .ok l =>
      match Files.Location.path? l with
      | some canonical => .ok canonical
      | none => .error (.nonUtf8Path (Files.Location.shown l))

structure Parts where
  script : Option Section
  template : Option Section
  styles : List Section
  deriving DecidableEq, Repr

namespace Parts

def empty : Parts := ⟨none, none, []⟩

def add (path : Path) (p : Parts) (s : Section) : Except LoadFailure Parts :=
  if s.tag = "script" then
    if p.script.isSome then .error (.duplicateSection path "script")
    else .ok { p with script := some s }
  else if s.tag = "template" then
    if p.template.isSome then .error (.duplicateSection path "template")
    else .ok { p with template := some s }
  else .ok { p with styles := p.styles ++ [s] }

def ofSections (path : Path) (sections : List Section) : Except LoadFailure Parts :=
  sections.foldlM (add path) empty

end Parts

structure Compiler where
  config : Configuration
  plugins : PluginSet

namespace Compiler

def textOf (env : Environment) (dir : Path) (s : Section) : Except LoadFailure Text :=
  match s.src? with
  | none => .ok s.text
  | some src => (env.readText (dir.join src)).mapError (.read (dir.join src))

def optionsFor (c : Compiler) (path dir : Path) (s : Section) (lang : Text) : CompileOptions :=
  { file := match s.src? with
      | some src => (dir.join src).text
      | none => path.text
    maps := c.config.maps
    offset := s.offset
    extra := c.config.extra lang }

def compileSection (env : Environment) (c : Compiler) (path dir : Path) (s : Section) (lang : Text) :
    Except LoadFailure CompiledText := do
  let text ← textOf env dir s
  (compileText env c.plugins lang text (c.optionsFor path dir s lang)).mapError (.compile path s.tag)

def styleOf (env : Environment) (dir : Path) (s : Section) : Except LoadFailure Style := do
  let text ← textOf env dir s
  .ok ⟨s.lang?, (s.attribute? "scoped").isSome, text⟩

def compileScript (env : Environment) (c : Compiler) (path dir : Path) :
    Option Section → Except LoadFailure CompiledText
  | some s => c.compileSection env path dir s (s.lang?.getD scriptLang)
  | none => .ok ⟨[], none⟩

def compileTemplate (env : Environment) (c : Compiler) (path dir : Path) :
    Option Section → Except LoadFailure (Option Text)
  | some s => (c.compileSection env path dir s (s.lang?.getD markupLang)).map (some ·.text)
  | none => .ok none

def compileAt (env : Environment) (c : Compiler) (path : Path) : Except LoadFailure ComponentModule := do
  let source ← (env.read path).mapError (.read path)
  let sections ← (sectionsOfBytes source componentTags).mapError (.sections path)
  let parts ← Parts.ofSections path sections
  let dir := path.parent?.getD ⟨"."⟩
  let script ← c.compileScript env path dir parts.script
  let template ← c.compileTemplate env path dir parts.template
  let styles ← parts.styles.mapM (styleOf env dir)
  .ok ⟨path, script.text, script.map, template, styles⟩

def compile (env : Environment) (c : Compiler) (path : Path) : Except LoadFailure ComponentModule := do
  let canonical ← realPath env path
  c.compileAt env canonical

end Compiler
end ComponentFile
