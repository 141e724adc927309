import ComponentFile.CommandLine.Output
import ComponentFile.CommandLine.Check

/-! The program: from its words to what it prints and how it ends. It ends with zero, with one if
a command fails, and with two if the words ask for nothing it knows. -/
namespace ComponentFile.CommandLine
open Files (Environment)

structure Outcome where
  code : Nat
  stdout : Text
  stderr : Text
  deriving DecidableEq, Repr

namespace Outcome

def printed (stdout : Text) : Outcome := ⟨0, stdout, []⟩

def failed (message : Text) : Outcome := ⟨1, [], "Error: " ++ message ++ "\n"⟩

end Outcome

def versionText : Text := "sfc-loader 0.3.1\n"

def usage : Text :=
  "usage: sfc-loader [--workspace DIR] [--config FILE] [-v] COMMAND
  extract FILE [--tag TAG]... [--output human|json]
  compile FILE [--no-maps] [--output human|json]
  check [PATH]...
"

def readConfig (env : Environment) (i : Invocation) : Except ConfigurationError Configuration :=
  match i.config with
  | some path => Configuration.ofFile env path
  | none => .ok (Configuration.ofWorkspace env i.workspace)

def runExtract (env : Environment) (file : Path) (tags : List Text) (format : OutputFormat) :
    Outcome :=
  match env.read file with
  | .error fault => .failed ("failed to read " ++ file.text ++ ": " ++ fault.message)
  | .ok source =>
      match sectionsOfBytes source (if tags.isEmpty then componentTags else tags) with
      | .ok sections => .printed (sectionsOutput format file sections)
      | .error e => .failed ("failed to extract sections from " ++ file.text ++ ": " ++ e.message)

def runCompile (env : Environment) (config : Configuration) (workspace file : Path) (maps : Bool)
    (format : OutputFormat) : Outcome :=
  let config := if maps then config else { config with maps := false }
  match ((Loader.ofConfig config workspace).load env file).2 with
  | .ok m => .printed (moduleOutput format m)
  | .error e => .failed e.withCauses

def runCheck (env : Environment) (config : Configuration) (workspace : Path) (paths : List Path) :
    Outcome :=
  let report := check env config workspace paths
  ⟨if report.failures.isEmpty then 0 else 1, report.summary,
    report.failures.flatMap CheckReport.failureText⟩

def Invocation.run (env : Environment) (i : Invocation) : Outcome :=
  match readConfig env i with
  | .error e => .failed e.message
  | .ok config =>
      match i.command with
      | .extract file tags format => runExtract env file tags format
      | .compile file maps format => runCompile env config i.workspace file maps format
      | .check paths => runCheck env config i.workspace paths

def run (env : Environment) (words : List Text) : Outcome :=
  match Invocation.ofWords words with
  | .ok i => i.run env
  | .error .version => .printed versionText
  | .error .misuse => ⟨2, [], usage⟩

end ComponentFile.CommandLine
