import ComponentFile.Files.Path

/-! The words of a command line. Options that hold for every command may stand before or after the
command's name; a value given after it wins. An option with one value may be given once on either
side, and a word that begins with a dash is never the value of the option before it. -/
namespace ComponentFile.CommandLine

inductive OutputFormat where
  | human
  | json
  deriving DecidableEq, Repr

def OutputFormat.ofName? (t : Text) : Option OutputFormat :=
  if t = "human" then some .human else if t = "json" then some .json else none

inductive CommandName where
  | extract
  | compile
  | check
  deriving DecidableEq, Repr

def CommandName.ofText? (t : Text) : Option CommandName :=
  if t = "extract" then some .extract
  else if t = "compile" then some .compile
  else if t = "check" then some .check
  else none

def CommandName.accepts (c : CommandName) (operands : Nat) : Bool := c = .check || operands ≤ 1

inductive Setting where
  | workspace
  | config
  | tag
  | output
  deriving DecidableEq, Repr

def Setting.ofName? (command : Option CommandName) (name : Text) : Option Setting :=
  if name = "workspace" then some .workspace
  else if name = "config" then some .config
  else if name = "tag" ∧ command = some .extract then some .tag
  else if name = "output" ∧ (command = some .extract ∨ command = some .compile) then some .output
  else none

inductive Switch where
  | verbose
  | version
  | noMaps
  deriving DecidableEq, Repr

def Switch.ofName? (command : Option CommandName) (name : Text) : Option Switch :=
  if name = "verbose" then some .verbose
  else if name = "version" ∧ command = none then some .version
  else if name = "no-maps" ∧ command = some .compile then some .noMaps
  else none

def Switch.ofLetter? (command : Option CommandName) (c : Char) : Option Switch :=
  if c = 'v' then some .verbose
  else if c = 'V' ∧ command = none then some .version
  else none

inductive Stop where
  | version
  | misuse
  deriving DecidableEq, Repr

structure Reading where
  command : Option CommandName
  outer : List (Setting × Text)
  settings : List (Setting × Text)
  switches : List Switch
  operands : List Text
  pending : Option Setting
  escaped : Bool
  deriving DecidableEq, Repr

namespace Reading

def empty : Reading := ⟨none, [], [], [], [], none, false⟩

def set (r : Reading) (s : Setting) (value : Text) : Except Stop Reading :=
  if s ≠ .tag ∧ r.settings.any (·.1 = s) then .error .misuse
  else if s = .output ∧ OutputFormat.ofName? value = none then .error .misuse
  else .ok { r with settings := r.settings ++ [(s, value)], pending := none }

def turnOn (r : Reading) (s : Switch) : Except Stop Reading :=
  match s with
  | .version => .error .version
  | .verbose => .ok r
  | .noMaps =>
      if r.switches.contains .noMaps then .error .misuse
      else .ok { r with switches := r.switches ++ [.noMaps] }

def long (r : Reading) (body : Text) : Except Stop Reading :=
  let name := body.takeWhile (· ≠ '=')
  match Setting.ofName? r.command name, Switch.ofName? r.command name, body.dropWhile (· ≠ '=') with
  | some s, _, _ :: value => r.set s value
  | some s, _, [] => .ok { r with pending := some s }
  | none, some s, [] => r.turnOn s
  | none, _, _ => .error .misuse

def letters (r : Reading) (cs : Text) : Except Stop Reading :=
  cs.foldlM (fun r c =>
    match Switch.ofLetter? r.command c with
    | some s => r.turnOn s
    | none => .error .misuse) r

def operand (r : Reading) (word : Text) : Except Stop Reading :=
  match r.command with
  | some c =>
      if c.accepts (r.operands.length + 1) then .ok { r with operands := r.operands ++ [word] }
      else .error .misuse
  | none =>
      match CommandName.ofText? word with
      | some c =>
          if r.escaped then .error .misuse
          else .ok { r with command := some c, outer := r.settings, settings := [] }
      | none => .error .misuse

def isDashed (word : Text) : Bool := word.head? = some '-' && word ≠ ['-']

def step (r : Reading) (word : Text) : Except Stop Reading :=
  match r.pending with
  | some s => if isDashed word then .error .misuse else r.set s word
  | none =>
      if r.escaped then r.operand word
      else
        match word with
        | ['-', '-'] => .ok { r with escaped := true }
        | '-' :: '-' :: body => r.long body
        | '-' :: c :: cs => r.letters (c :: cs)
        | _ => r.operand word

def value? (r : Reading) (s : Setting) : Option Text :=
  ((r.settings ++ r.outer).find? (·.1 = s)).map (·.2)

def format (r : Reading) : OutputFormat := ((r.value? .output).bind OutputFormat.ofName?).getD .human

end Reading

inductive Command where
  | extract (file : Path) (tags : List Text) (format : OutputFormat)
  | compile (file : Path) (maps : Bool) (format : OutputFormat)
  | check (paths : List Path)
  deriving Repr

structure Invocation where
  workspace : Path
  config : Option Path
  command : Command
  deriving Repr

def Invocation.paths (i : Invocation) : List Path :=
  i.workspace :: i.config.toList ++
    (match i.command with
      | .extract file _ _ => [file]
      | .compile file _ _ => [file]
      | .check paths => paths)

namespace Reading

def command? (r : Reading) : Option Command :=
  match r.command, r.pending, r.operands with
  | some .extract, none, [file] =>
      some (.extract ⟨file⟩ ((r.settings.filter (·.1 = .tag)).map (·.2)) r.format)
  | some .compile, none, [file] =>
      some (.compile ⟨file⟩ (!r.switches.contains .noMaps) r.format)
  | some .check, none, paths => some (.check (paths.map Path.mk))
  | _, _, _ => none

def finish (r : Reading) : Except Stop Invocation :=
  match r.command? with
  | some command => .ok ⟨⟨(r.value? .workspace).getD "."⟩, (r.value? .config).map Path.mk, command⟩
  | none => .error .misuse

end Reading

def Invocation.ofWords (words : List Text) : Except Stop Invocation := do
  let r ← words.foldlM Reading.step .empty
  r.finish

end ComponentFile.CommandLine
