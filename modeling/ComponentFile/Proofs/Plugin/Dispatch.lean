import ComponentFile.Plugin.Compile
import ComponentFile.Proofs.Table
import ComponentFile.Proofs.Text.Case

/-! Which handler compiles a section. Of all that is registered for a language, in any case of its
letters and in any order, the last plugin of this process counts, then the last command, then the
installed program; only a language without any of them is passed through. -/
namespace ComponentFile

inductive Registration where
  | plugin (lang : Text) (t : Plugin)
  | command (lang : Text) (c : ExternalCommand)

namespace Registration

def plugin? (lang : Text) : Registration → Option Plugin
  | .plugin name t => if Text.lower name = Text.lower lang then some t else none
  | .command _ _ => none

def command? (lang : Text) : Registration → Option ExternalCommand
  | .plugin _ _ => none
  | .command name c => if Text.lower name = Text.lower lang then some c else none

def pluginsFor (lang : Text) (calls : List Registration) : List Plugin :=
  calls.filterMap (plugin? lang)

def commandsFor (lang : Text) (calls : List Registration) : List ExternalCommand :=
  calls.filterMap (command? lang)

end Registration
open Registration

namespace PluginSet

def register (s : PluginSet) : Registration → PluginSet
  | .plugin lang t => s.add lang t
  | .command lang c => s.addCommand lang c

def ofCalls (search : PluginSearch) (calls : List Registration) : PluginSet :=
  calls.foldl register ⟨[], [], search⟩

theorem registerPlugins (s : PluginSet) (call : Registration) (lang : Text) :
    (s.register call).plugins.get? (Text.lower lang) =
      (call.plugin? lang).or (s.plugins.get? (Text.lower lang)) := by
  cases call with
  | plugin name t =>
    simp only [register, add, plugin?, Table.getPut, beq_iff_eq]
    split <;> rfl
  | command name c => rfl

theorem registerCommands (s : PluginSet) (call : Registration) (lang : Text) :
    (s.register call).commands.get? (Text.lower lang) =
      (call.command? lang).or (s.commands.get? (Text.lower lang)) := by
  cases call with
  | plugin name t => rfl
  | command name c =>
    simp only [register, addCommand, command?, Table.getPut, beq_iff_eq]
    split <;> rfl

theorem foldLast {β : Type} (view : PluginSet → Option β) (value? : Registration → Option β)
    (step : ∀ s call, view (s.register call) = (value? call).or (view s))
    (s : PluginSet) (calls : List Registration) :
    view (calls.foldl register s) = ((calls.filterMap value?).getLast?).or (view s) := by
  induction calls generalizing s with
  | nil => rfl
  | cons call rest ih =>
    rw [List.foldl_cons, ih, step, List.filterMap_cons]
    cases value? call with
    | none => rfl
    | some v =>
      rw [List.getLast?_cons]
      cases (rest.filterMap value?).getLast? <;> rfl

theorem foldSearch (s : PluginSet) (calls : List Registration) :
    (calls.foldl register s).search = s.search := by
  induction calls generalizing s with
  | nil => rfl
  | cons call rest ih =>
    rw [List.foldl_cons, ih]
    cases call <;> rfl

section OfCalls
variable (search : PluginSearch) (calls : List Registration) (lang : Text)

theorem ofCallsPlugins : (ofCalls search calls).plugins.get? (Text.lower lang) =
    (pluginsFor lang calls).getLast? :=
  (foldLast (fun s => s.plugins.get? (Text.lower lang)) (plugin? lang)
    (fun s call => registerPlugins s call lang) _ calls).trans Option.or_none

theorem ofCallsCommands : (ofCalls search calls).commands.get? (Text.lower lang) =
    (commandsFor lang calls).getLast? :=
  (foldLast (fun s => s.commands.get? (Text.lower lang)) (command? lang)
    (fun s call => registerCommands s call lang) _ calls).trans Option.or_none

theorem ofCallsSearch : (ofCalls search calls).search = search := foldSearch _ calls

end OfCalls

end PluginSet

/- What a plugin of this process answers. An error of this library is handed on as it is, any other
one as foreign. -/
def handedOn : Except PluginFailure CompiledText → Except CompileError CompiledText
  | .ok compiled => .ok compiled
  | .error (.known e) => .error e
  | .error (.foreign message) => .error (.foreign message)

structure Unhandled (env : Files.Environment) (search : PluginSearch) (calls : List Registration)
    (lang : Text) : Prop where
  plugin : (pluginsFor lang calls).getLast? = none
  command : (commandsFor lang calls).getLast? = none
  installed : PluginSet.findInstalled env search (installedName lang) = none

def scriptLangs : List Text := [[], "js", "javascript"]

inductive Compiles (env : Files.Environment) (search : PluginSearch) (calls : List Registration)
    (lang text : Text) (options : CompileOptions) : Except CompileError CompiledText → Prop where
  | plugin {t : Plugin} (last : (pluginsFor lang calls).getLast? = some t) :
      Compiles env search calls lang text options (handedOn (t text options))
  | command {c : ExternalCommand} (noPlugin : (pluginsFor lang calls).getLast? = none)
      (last : (commandsFor lang calls).getLast? = some c) :
      Compiles env search calls lang text options (c.run env (installedName lang) text options)
  | installed {path : Path} (noPlugin : (pluginsFor lang calls).getLast? = none)
      (noCommand : (commandsFor lang calls).getLast? = none)
      (found : PluginSet.findInstalled env search (installedName lang) = some path) :
      Compiles env search calls lang text options
        (ExternalCommand.run env (installedName lang) ⟨path, []⟩ text options)
  | script (unhandled : Unhandled env search calls lang) (plain : Text.lower lang ∈ scriptLangs)
      (unmapped : options.maps = false ∨ options.offset = 0) :
      Compiles env search calls lang text options (.ok ⟨text, none⟩)
  | mappedScript {m : SourceMap} (unhandled : Unhandled env search calls lang)
      (plain : Text.lower lang ∈ scriptLangs) (asked : options.maps = true)
      (inline : 0 < options.offset)
      (made : TokenMap.ofScript text options.file options.offset = .ok m) :
      Compiles env search calls lang text options (.ok ⟨text, some m⟩)
  | markup (unhandled : Unhandled env search calls lang) (plain : Text.lower lang = markupLang) :
      Compiles env search calls lang text options (.ok ⟨text, none⟩)
  | missing (unhandled : Unhandled env search calls lang)
      (foreign : Text.lower lang ∉ markupLang :: scriptLangs) :
      Compiles env search calls lang text options
        (.error (.missingPlugin lang (installedName lang)))

theorem installedNameLower (lang : Text) : installedName (Text.lower lang) = installedName lang := by
  unfold installedName
  rw [Text.lowerTwice]

section Compile
variable {env : Files.Environment} {search : PluginSearch} {calls : List Registration}
  {lang text : Text} {options : CompileOptions}

theorem handlerForCalls :
    (PluginSet.ofCalls search calls).handlerFor env lang =
      match (pluginsFor lang calls).getLast? with
      | some t => .ok (.inProcess t)
      | none =>
          match (commandsFor lang calls).getLast? with
          | some c => .ok (.command (installedName lang) c)
          | none =>
              match PluginSet.findInstalled env search (installedName lang) with
              | some path => .ok (.command (installedName lang) ⟨path, []⟩)
              | none => .error (.pluginNotFound (Text.lower lang)) := by
  have plugins := PluginSet.ofCallsPlugins search calls lang
  have commands := PluginSet.ofCallsCommands search calls lang
  cases plugin : (pluginsFor lang calls).getLast? with
  | some t =>
    rw [plugin] at plugins
    simp only [PluginSet.handlerFor, plugins]
  | none =>
    rw [plugin] at plugins
    cases command : (commandsFor lang calls).getLast? with
    | some c =>
      rw [command] at commands
      simp only [PluginSet.handlerFor, plugins, commands, installedNameLower]
    | none =>
      rw [command] at commands
      cases found : PluginSet.findInstalled env search (installedName lang) <;>
        simp only [PluginSet.handlerFor, plugins, commands, PluginSet.ofCallsSearch,
          installedNameLower, found]

theorem compilePlugin {t : Plugin} (last : (pluginsFor lang calls).getLast? = some t) :
    compileText env (.ofCalls search calls) lang text options = handedOn (t text options) := by
  unfold compileText
  rw [handlerForCalls, last]
  simp only [PluginSet.Handler.transform]
  rcases t text options with (_ | _) | _ <;> rfl

theorem runCommand (name : Text) (c : ExternalCommand) :
    ((PluginSet.Handler.command name c).transform env text options).mapError
      PluginFailure.toError = c.run env name text options := by
  simp only [PluginSet.Handler.transform]
  cases c.run env name text options <;> rfl

theorem compileCommand {c : ExternalCommand}
    (noPlugin : (pluginsFor lang calls).getLast? = none)
    (last : (commandsFor lang calls).getLast? = some c) :
    compileText env (.ofCalls search calls) lang text options =
      c.run env (installedName lang) text options := by
  unfold compileText
  rw [handlerForCalls, noPlugin, last]
  exact runCommand _ c

theorem compileInstalled {path : Path} (noPlugin : (pluginsFor lang calls).getLast? = none)
    (noCommand : (commandsFor lang calls).getLast? = none)
    (found : PluginSet.findInstalled env search (installedName lang) = some path) :
    compileText env (.ofCalls search calls) lang text options =
      ExternalCommand.run env (installedName lang) ⟨path, []⟩ text options := by
  unfold compileText
  rw [handlerForCalls, noPlugin, noCommand, found]
  exact runCommand _ _

theorem compileUnhandled (unhandled : Unhandled env search calls lang) :
    compileText env (.ofCalls search calls) lang text options = passThrough lang text options := by
  unfold compileText
  rw [handlerForCalls, unhandled.plugin, unhandled.command, unhandled.installed]

theorem plainScript : plainLang? lang = some .script ↔ Text.lower lang ∈ scriptLangs := by
  have kept : Text.lower lang ∈ scriptLangs ↔
      Text.lower lang = [] ∨ Text.lower lang = scriptLang ∨ Text.lower lang = "javascript" := by
    simp [scriptLangs, scriptLang]
  rw [kept]
  unfold plainLang?
  simp only
  split
  · rename_i script
    exact iff_of_true rfl script
  · rename_i other
    refine iff_of_false ?_ other
    split <;> simp

theorem plainMarkup : plainLang? lang = some .markup ↔ Text.lower lang = markupLang := by
  unfold plainLang?
  simp only
  split
  · rename_i script
    have apart : ∀ t ∈ scriptLangs, t ≠ markupLang := by decide
    simp only [Option.some.injEq, reduceCtorEq, false_iff]
    exact apart _ (plainScript.mp (if_pos script))
  · split
    · rename_i markup
      simp [markup]
    · rename_i other
      simp [other]

section PassThrough

theorem passUnmapped (plain : Text.lower lang ∈ scriptLangs)
    (unmapped : options.maps = false ∨ options.offset = 0) :
    passThrough lang text options = .ok ⟨text, none⟩ := by
  have off : ¬ (options.maps && decide (0 < options.offset)) = true := by
    rcases unmapped with unasked | none
    · simp [unasked]
    · simp [none]
  unfold passThrough
  rw [plainScript.mpr plain]
  simp only
  rw [if_neg off]
  rfl

theorem passMapped {m : SourceMap} (plain : Text.lower lang ∈ scriptLangs)
    (asked : options.maps = true) (inline : 0 < options.offset)
    (made : TokenMap.ofScript text options.file options.offset = .ok m) :
    passThrough lang text options = .ok ⟨text, some m⟩ := by
  unfold passThrough
  rw [plainScript.mpr plain]
  simp only [asked, inline, decide_true, Bool.and_self, if_true, made]

theorem passMarkup (plain : Text.lower lang = markupLang) :
    passThrough lang text options = .ok ⟨text, none⟩ := by
  unfold passThrough
  rw [plainMarkup.mpr plain]
  rfl

theorem passMissing (foreign : Text.lower lang ∉ markupLang :: scriptLangs) :
    passThrough lang text options = .error (.missingPlugin lang (installedName lang)) := by
  rw [List.mem_cons, not_or, ← plainMarkup, ← plainScript] at foreign
  unfold passThrough
  rcases plain : plainLang? lang with _ | _ | _
  · rfl
  · exact absurd plain foreign.2
  · exact absurd plain foreign.1

theorem mapMade (text : Text) (fits : options.offset < Word.size32) (inline : 0 < options.offset) :
    ∃ m, TokenMap.ofScript text options.file options.offset = .ok m := by
  unfold TokenMap.ofScript TokenMap.ofStream
  rw [if_pos (Word.fits32Exact.mpr (by omega))]
  exact ⟨_, rfl⟩

theorem passedThrough (fits : options.offset < Word.size32)
    (unhandled : Unhandled env search calls lang) :
    Compiles env search calls lang text options (passThrough lang text options) := by
  by_cases script : Text.lower lang ∈ scriptLangs
  · by_cases mapped : options.maps = true ∧ 0 < options.offset
    · obtain ⟨asked, inline⟩ := mapped
      obtain ⟨m, made⟩ := mapMade text fits inline
      rw [passMapped script asked inline made]
      exact .mappedScript unhandled script asked inline made
    · have unmapped : options.maps = false ∨ options.offset = 0 := by
        rw [not_and_or, Bool.not_eq_true, Nat.not_lt, Nat.le_zero] at mapped
        exact mapped
      rw [passUnmapped script unmapped]
      exact .script unhandled script unmapped
  · by_cases markup : Text.lower lang = markupLang
    · rw [passMarkup markup]
      exact .markup unhandled markup
    · have foreign : Text.lower lang ∉ markupLang :: scriptLangs := by
        rw [List.mem_cons, not_or]
        exact ⟨markup, script⟩
      rw [passMissing foreign]
      exact .missing unhandled foreign

end PassThrough

theorem compiledSo (fits : options.offset < Word.size32) :
    Compiles env search calls lang text options
      (compileText env (.ofCalls search calls) lang text options) := by
  cases plugin : (pluginsFor lang calls).getLast? with
  | some t =>
    rw [compilePlugin plugin]
    exact .plugin plugin
  | none =>
    cases command : (commandsFor lang calls).getLast? with
    | some c =>
      rw [compileCommand plugin command]
      exact .command plugin command
    | none =>
      cases installed : PluginSet.findInstalled env search (installedName lang) with
      | some path =>
        rw [compileInstalled plugin command installed]
        exact .installed plugin command installed
      | none =>
        have unhandled : Unhandled env search calls lang := ⟨plugin, command, installed⟩
        rw [compileUnhandled unhandled]
        exact passedThrough fits unhandled

/- Compiling a section uses the last plugin of this process that was registered for its language, in
any case of its letters; if there is none the last command, then the installed program. A language
without any of these is passed through if it is script or markup, script with a map if one is asked
for and the text begins on a line of the component, and any other lacks its plugin. -/
theorem handlersInOrder (fits : options.offset < Word.size32)
    (result : Except CompileError CompiledText) :
    compileText env (.ofCalls search calls) lang text options = result ↔
      Compiles env search calls lang text options result := by
  constructor
  · rintro rfl
    exact compiledSo fits
  · intro compiles
    cases compiles with
    | plugin last => exact compilePlugin last
    | command noPlugin last => exact compileCommand noPlugin last
    | installed noPlugin noCommand found => exact compileInstalled noPlugin noCommand found
    | script unhandled plain unmapped =>
      rw [compileUnhandled unhandled, passUnmapped plain unmapped]
    | mappedScript unhandled plain asked inline made =>
      rw [compileUnhandled unhandled, passMapped plain asked inline made]
    | markup unhandled plain => rw [compileUnhandled unhandled, passMarkup plain]
    | missing unhandled foreign => rw [compileUnhandled unhandled, passMissing foreign]

end Compile

section Samples

def emptyMachine : Files.Environment := ⟨[], [], [], ⟨['/']⟩⟩

def refusing : Plugin := fun _ _ => .error (.known (.pluginNotFound "x"))

def samples : List Registration :=
  [.plugin "TS" refusing, .command "js" ⟨⟨"minify"⟩, []⟩,
    .plugin "Ts" fun text _ => .ok (.unchanged text), .plugin "tS" refusing]

theorem lastSpellingCounts :
    compileText emptyMachine (.ofCalls .disabled samples) "ts" "a" .default =
        .error (.pluginNotFound "x") ∧
      compileText emptyMachine (.ofCalls .disabled samples) "JS" "a" .default =
        ExternalCommand.run emptyMachine "sfc-transpile-js" ⟨⟨"minify"⟩, []⟩ "a" .default ∧
      ∃ m, compileText emptyMachine (.ofCalls .disabled samples) "JavaScript" "a"
        ⟨"A.vue", true, 2, .null⟩ = .ok ⟨"a", some m⟩ := by
  refine ⟨(handlersInOrder (by decide) _).mpr (.plugin (t := refusing) rfl), ?_, ?_⟩
  · have name : installedName "JS" = "sfc-transpile-js".toList := by decide
    rw [← name]
    exact (handlersInOrder (by decide) _).mpr (.command rfl rfl)
  · have fits : (⟨"A.vue", true, 2, .null⟩ : CompileOptions).offset < Word.size32 := by decide
    obtain ⟨m, made⟩ := mapMade "a" fits (by decide)
    exact ⟨m, (handlersInOrder (by decide) _).mpr
      (.mappedScript ⟨rfl, rfl, rfl⟩ (by decide) rfl (by decide) made)⟩

end Samples
end ComponentFile
