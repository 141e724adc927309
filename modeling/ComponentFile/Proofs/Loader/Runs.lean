import ComponentFile.Loader.Basic
import ComponentFile.Proofs.Plugin.Dispatch
import ComponentFile.Proofs.Text.Utf8

/-! The plugins that a load runs, with what they are given. Loading is told again with a record of
them; what comes of it is the same. A plugin is found for a language in any case of its letters, but
its configuration only under the language as it is spelled. -/
namespace ComponentFile
open Files (Environment)

structure PluginRun where
  part : Section
  handler : PluginSet.Handler
  text : Text
  options : CompileOptions

/- A computation that keeps a record of the plugins it runs, also when it fails. -/
abbrev Recorded (ε : Type) := ExceptT ε (StateM (List PluginRun))

namespace Recorded
variable {ε α β : Type}

def outcome (r : Except ε α) : Recorded ε α := .mk (pure r)

def plugin (env : Environment) (r : PluginRun) : Recorded CompileError CompiledText := do
  modify (· ++ [r])
  outcome ((r.handler.transform env r.text r.options).mapError PluginFailure.toError)

def Records (x : Recorded ε α) (r : Except ε α) (p : PluginRun → Prop) : Prop :=
  ∀ before, ∃ more, x.run.run before = (r, before ++ more) ∧ ∀ a ∈ more, p a

variable {x : Recorded ε α} {r : Except ε α} {p : PluginRun → Prop}

theorem recordsOutcome (r : Except ε α) : Records (outcome r) r p :=
  fun before => ⟨[], by rw [List.append_nil]; rfl, nofun⟩

theorem outcomeBind (r : Except ε α) (f : α → Recorded ε β) (before : List PluginRun) :
    (outcome r >>= f).run.run before = match r with
      | .ok a => (f a).run.run before
      | .error e => (.error e, before) := by
  cases r <;> rfl

theorem recordsPlugin {env : Environment} {a : PluginRun} (like : p a) :
    Records (plugin env a)
      ((a.handler.transform env a.text a.options).mapError PluginFailure.toError) p :=
  fun before => ⟨[a], rfl, fun b member => by cases List.mem_singleton.mp member; exact like⟩

theorem recordsBind {f : α → Recorded ε β} {g : α → Except ε β} (here : Records x r p)
    (onward : ∀ a, Records (f a) (g a) p) : Records (x >>= f) (r >>= g) p := by
  intro before
  obtain ⟨first, done, like⟩ := here before
  simp only [ExceptT.run_bind, StateT.run_bind, done]
  cases r with
  | error e => exact ⟨first, rfl, like⟩
  | ok a =>
    obtain ⟨more, later, alike⟩ := onward a (before ++ first)
    rw [List.append_assoc] at later
    exact ⟨first ++ more, later, List.forall_mem_append.mpr ⟨like, alike⟩⟩

theorem recordsAdapt {δ : Type} (f : ε → δ) (here : Records x r p) :
    Records (x.adapt f) (r.mapError f) p := by
  intro before
  obtain ⟨more, done, like⟩ := here before
  refine ⟨more, ?_, like⟩
  have adapted : (x.adapt f).run.run before =
      ((x.run.run before).1.mapError f, (x.run.run before).2) := rfl
  rw [adapted, done]

end Recorded
open Recorded

structure PluginRun.Of (env : Environment) (c : Compiler) (lang : Text) (r : PluginRun) : Prop where
  found : c.plugins.handlerFor env lang = .ok r.handler
  extra : r.options.extra = c.config.extra lang

def PluginRun.Own (env : Environment) (c : Compiler) (r : PluginRun) : Prop :=
  ∃ usual, r.Of env c (r.part.lang?.getD usual)

namespace Compiler
variable (env : Environment) (c : Compiler) (path dir : Path)

def recordText (s : Section) (lang text : Text) (options : CompileOptions) :
    Recorded CompileError CompiledText :=
  match c.plugins.handlerFor env lang with
  | .ok handler => plugin env ⟨s, handler, text, options⟩
  | .error (.pluginNotFound _) => outcome (passThrough lang text options)
  | .error e => outcome (.error e)

def recordSection (s : Section) (lang : Text) : Recorded LoadFailure CompiledText := do
  let text ← outcome (textOf env dir s)
  (recordText env c s lang text (c.optionsFor path dir s lang)).adapt (.compile path s.tag)

def recordScript : Option Section → Recorded LoadFailure CompiledText
  | some s => recordSection env c path dir s (s.lang?.getD scriptLang)
  | none => outcome (.ok ⟨[], none⟩)

def recordTemplate : Option Section → Recorded LoadFailure (Option Text)
  | some s => do
      let compiled ← recordSection env c path dir s (s.lang?.getD markupLang)
      outcome (.ok (some compiled.text))
  | none => outcome (.ok none)

def recordAt : Recorded LoadFailure ComponentModule := do
  let source ← outcome ((env.read path).mapError (.read path))
  let sections ← outcome ((sectionsOfBytes source componentTags).mapError (.sections path))
  let parts ← outcome (Parts.ofSections path sections)
  let dir := path.parent?.getD ⟨"."⟩
  let script ← recordScript env c path dir parts.script
  let template ← recordTemplate env c path dir parts.template
  let styles ← outcome (parts.styles.mapM (styleOf env dir))
  outcome (.ok ⟨path, script.text, script.map, template, styles⟩)

def record : Recorded LoadFailure ComponentModule := do
  let canonical ← outcome (realPath env path)
  recordAt env c canonical

variable {env c path dir}

theorem textRecords {s : Section} {usual text : Text} {options : CompileOptions}
    (extra : options.extra = c.config.extra (s.lang?.getD usual)) :
    Records (recordText env c s (s.lang?.getD usual) text options)
      (compileText env c.plugins (s.lang?.getD usual) text options) (PluginRun.Own env c) := by
  unfold recordText compileText
  cases found : c.plugins.handlerFor env (s.lang?.getD usual) with
  | ok handler => exact recordsPlugin ⟨usual, found, extra⟩
  | error e => cases e <;> exact recordsOutcome _

theorem sectionRecords (s : Section) (usual : Text) :
    Records (recordSection env c path dir s (s.lang?.getD usual))
      (c.compileSection env path dir s (s.lang?.getD usual)) (PluginRun.Own env c) :=
  recordsBind (recordsOutcome _) fun _ => recordsAdapt _ (textRecords rfl)

theorem scriptRecords (part : Option Section) : Records (recordScript env c path dir part)
    (c.compileScript env path dir part) (PluginRun.Own env c) := by
  cases part with
  | some s => exact sectionRecords s scriptLang
  | none => exact recordsOutcome _

theorem templateRecords (part : Option Section) : Records (recordTemplate env c path dir part)
    (c.compileTemplate env path dir part) (PluginRun.Own env c) := by
  cases part with
  | some s =>
    exact recordsBind (sectionRecords s markupLang) fun compiled => recordsOutcome _
  | none => exact recordsOutcome _

theorem atRecords : Records (recordAt env c path) (c.compileAt env path) (PluginRun.Own env c) := by
  refine recordsBind (recordsOutcome _) fun source => ?_
  refine recordsBind (recordsOutcome _) fun sections => ?_
  refine recordsBind (recordsOutcome _) fun parts => ?_
  refine recordsBind (scriptRecords _) fun script => ?_
  refine recordsBind (templateRecords _) fun template => ?_
  exact recordsBind (recordsOutcome _) fun styles => recordsOutcome _

theorem compileRecords : Records (record env c path) (c.compile env path) (PluginRun.Own env c) :=
  recordsBind (recordsOutcome _) fun _ => atRecords

end Compiler

theorem sectionsOfEncoded (source : Text) (tags : List Text) :
    sectionsOfBytes (Utf8.encode source) tags = sectionsOf source tags := by
  unfold sectionsOfBytes sectionsOf
  rw [Utf8.decodeEncode]
  cases requestedTags tags <;> rfl

namespace Loader
variable {env : Environment} {l : Loader}

def loadRecorded (env : Environment) (l : Loader) (path : Path) :
    (Loader × Except LoadFailure ComponentModule) × List PluginRun :=
  match (Compiler.record env l.compiler path).run.run [] with
  | (.ok m, runs) => ((l.remember m, .ok m), runs)
  | (.error e, runs) => ((l, .error e), runs)

theorem loadRecords (path : Path) : (l.loadRecorded env path).1 = l.load env path ∧
    ∀ r ∈ (l.loadRecorded env path).2, r.Own env l.compiler := by
  obtain ⟨runs, done, own⟩ := (Compiler.compileRecords : Recorded.Records
    (Compiler.record env l.compiler path) _ _) []
  unfold loadRecorded load
  rw [done]
  cases l.compiler.compile env path <;> exact ⟨rfl, own⟩

theorem ownLang {c : Compiler} {r : PluginRun} {lang : Text} (own : r.Own env c)
    (written : r.part.lang? = some lang) : r.Of env c lang := by
  obtain ⟨usual, own⟩ := own
  rw [written] at own
  exact own

theorem handlerAlike {s : PluginSet} {lang name : Text} (same : Text.lower name = Text.lower lang) :
    s.handlerFor env name = s.handlerFor env lang := by
  simp only [PluginSet.handlerFor, same]

theorem extraElsewhere {c : Configuration} {lang : Text}
    (lower : ∀ key ∈ c.options.keys, Text.lower key = key) (other : Text.lower lang ≠ lang) :
    c.extra lang = .object [] := by
  unfold Configuration.extra
  cases found : c.options.get? lang with
  | none => rfl
  | some v =>
    have key : lang ∈ c.options.keys := List.mem_map.mpr ⟨_, Table.memberOfGet found, rfl⟩
    exact absurd (lower lang key) other

/- A plugin has the options of its language if the section spells the language in lower case, as
the options do, and none if it does not. The plugin itself is the same in every case of the letters. -/
theorem pluginsConfigured (lower : ∀ key ∈ l.config.options.keys, Text.lower key = key)
    (path : Path) :
    (l.loadRecorded env path).1 = l.load env path ∧
      ∀ r ∈ (l.loadRecorded env path).2, ∀ lang, r.part.lang? = some lang →
        (Text.lower lang = lang →
          r.options.extra = (l.config.options.get? (Text.lower lang)).getD (.object [])) ∧
        (Text.lower lang ≠ lang → r.options.extra = .object []) ∧
        ∀ other, ∀ r' ∈ (l.loadRecorded env other).2, ∀ name, r'.part.lang? = some name →
          Text.lower name = Text.lower lang → r'.handler = r.handler := by
  obtain ⟨same, runs⟩ := @loadRecords env l path
  refine ⟨same, fun r member lang written => ?_⟩
  have own := ownLang (runs r member) written
  refine ⟨fun spelled => ?_, fun spelled => ?_, fun other r' member' name written' alike => ?_⟩
  · rw [own.extra, spelled]
    rfl
  · exact own.extra.trans (extraElsewhere lower spelled)
  · have own' := ownLang ((loadRecords other).2 r' member') written'
    have found := own'.found
    rw [handlerAlike alike, own.found] at found
    exact (Except.ok.inj found).symm

theorem scriptRun {path canonical : Path} {source : Utf8.Bytes} {s : Section}
    {handler : PluginSet.Handler} (real : realPath env path = .ok canonical)
    (read : env.read canonical = .ok source)
    (alone : sectionsOfBytes source componentTags = .ok [s]) (tag : s.tag = "script")
    (inline : s.src? = none)
    (found : l.compiler.plugins.handlerFor env (s.lang?.getD scriptLang) = .ok handler) :
    (l.loadRecorded env path).2 = [⟨s, handler, s.text, l.compiler.optionsFor canonical
      (canonical.parent?.getD ⟨"."⟩) s (s.lang?.getD scriptLang)⟩] := by
  have parts : Parts.ofSections canonical [s] = .ok ⟨some s, none, []⟩ := by
    simp only [Parts.ofSections, List.foldlM_cons, List.foldlM_nil, Parts.add, tag, if_true]
    rfl
  have text (dir : Path) : Compiler.textOf env dir s = .ok s.text := by
    rw [Compiler.textOf, inline]
  have script : ∃ result, (Compiler.recordScript env l.compiler canonical
      (canonical.parent?.getD ⟨"."⟩) (some s)).run.run [] = (result,
        [⟨s, handler, s.text, l.compiler.optionsFor canonical (canonical.parent?.getD ⟨"."⟩) s
          (s.lang?.getD scriptLang)⟩]) := by
    simp only [Compiler.recordScript, Compiler.recordSection, Recorded.outcomeBind, text,
      Compiler.recordText, found]
    exact ⟨_, rfl⟩
  obtain ⟨result, ran⟩ := script
  unfold loadRecorded Compiler.record Compiler.recordAt
  simp only [Recorded.outcomeBind, real, read, alone, parts, Except.mapError]
  simp only [ExceptT.run_bind, StateT.run_bind, ran]
  cases result <;> rfl

section Samples

def scriptIn (lang : Text) : Text := "<script lang=\"" ++ lang ++ "\">\n1\n</script>"

def spelledTwice : Environment :=
  let name (t : Text) : Files.Name := Utf8.encode t
  ⟨[([name "w"], .directory),
    ([name "w", name "App.vue"], .file (Utf8.encode (scriptIn "TS"))),
    ([name "w", name "Low.vue"], .file (Utf8.encode (scriptIn "ts")))],
    [name "w"], [], ⟨['/']⟩⟩

def strict : Loader :=
  fresh ⟨"vue", true, [], [("ts", .object [("strict", .bool true)])]⟩
    ((PluginSet.mk [] [] .disabled).add "ts" fun text _ => .ok (.unchanged text))

theorem strictLower : ∀ key ∈ strict.config.options.keys, Text.lower key = key := by decide

theorem languageRun {path : Path} {lang : Text}
    (written : path = ⟨"/w/App.vue"⟩ ∧ lang = "TS" ∨ path = ⟨"/w/Low.vue"⟩ ∧ lang = "ts") :
    ∃ r ∈ (strict.loadRecorded spelledTwice path).2, r.part.lang? = some lang := by
  let s : Section := ⟨"script", "\n1\n", [("lang", lang)], 1, ⟨18, 21⟩⟩
  have real : realPath spelledTwice path = .ok path := by
    rcases written with ⟨rfl, rfl⟩ | ⟨rfl, rfl⟩ <;> with_unfolding_all rfl
  have read : spelledTwice.read path = .ok (Utf8.encode (scriptIn lang)) := by
    rcases written with ⟨rfl, rfl⟩ | ⟨rfl, rfl⟩ <;> rfl
  have alone : sectionsOf (scriptIn lang) componentTags = .ok [s] := by
    rcases written with ⟨rfl, rfl⟩ | ⟨rfl, rfl⟩ <;> decide +kernel
  have own : s.lang? = some lang := by rcases written with ⟨rfl, rfl⟩ | ⟨rfl, rfl⟩ <;> rfl
  obtain ⟨handler, found⟩ : ∃ handler, strict.compiler.plugins.handlerFor spelledTwice
      (s.lang?.getD scriptLang) = .ok handler := by
    rcases written with ⟨rfl, rfl⟩ | ⟨rfl, rfl⟩ <;> exact ⟨_, rfl⟩
  have run := scriptRun (l := strict) real read ((sectionsOfEncoded _ _).trans alone) rfl rfl found
  exact ⟨_, by rw [run]; exact List.mem_singleton_self _, own⟩

theorem lowerCaseConfigured : (∀ key ∈ strict.config.options.keys, Text.lower key = key) ∧
    ∃ r ∈ (strict.loadRecorded spelledTwice ⟨"/w/Low.vue"⟩).2,
    ∃ r' ∈ (strict.loadRecorded spelledTwice ⟨"/w/App.vue"⟩).2,
      r.options.extra = .object [("strict", .bool true)] ∧ r'.options.extra = .object [] ∧
        r'.handler = r.handler := by
  obtain ⟨r, member, lower⟩ := languageRun (.inr ⟨rfl, rfl⟩)
  obtain ⟨r', member', upper⟩ := languageRun (.inl ⟨rfl, rfl⟩)
  obtain ⟨-, runs⟩ := @pluginsConfigured spelledTwice strict strictLower ⟨"/w/Low.vue"⟩
  obtain ⟨-, runs'⟩ := @pluginsConfigured spelledTwice strict strictLower ⟨"/w/App.vue"⟩
  obtain ⟨configured, -, alike⟩ := runs r member _ lower
  obtain ⟨-, unconfigured, -⟩ := runs' r' member' _ upper
  exact ⟨strictLower, r, member, r', member', configured (by decide), unconfigured (by decide),
    alike _ r' member' _ upper (by decide)⟩

/- Options for a language are not found when a section spells it in upper case. -/
theorem upperCaseUnconfigured : ¬ ∀ (env : Environment) (l : Loader),
    (∀ key ∈ l.config.options.keys, Text.lower key = key) →
      ∀ path, ∀ r ∈ (l.loadRecorded env path).2, ∀ lang, r.part.lang? = some lang →
        r.options.extra = (l.config.options.get? (Text.lower lang)).getD (.object []) := by
  intro folded
  obtain ⟨r, member, upper⟩ := languageRun (.inl ⟨rfl, rfl⟩)
  have given := folded spelledTwice strict strictLower ⟨"/w/App.vue"⟩ r member _ upper
  have own := ownLang ((loadRecords ⟨"/w/App.vue"⟩).2 r member) upper
  have none : r.options.extra = .object [] :=
    own.extra.trans (extraElsewhere strictLower (by decide))
  have configured : (strict.config.options.get? (Text.lower "TS")).getD (.object []) =
      .object [("strict", .bool true)] := rfl
  rw [none, configured] at given
  cases given

end Samples
end Loader
end ComponentFile
