import ComponentFile.Files.Tree

/-! What a run sees of the machine: a file tree, the directory it runs in, where programs are
searched for, and the home directory. Running a program changes nothing; only `write` and `remove`
do. -/
namespace ComponentFile.Files
open Utf8 (Bytes)

structure Environment where
  tree : Tree
  directory : Location
  searchPath : Text
  home : Path

namespace Environment

def linkLimit : Nat := 40

def locateWith (env : Environment) (follow : Bool) (path : Path) : Except FileFault Location :=
  if path.text.contains '\x00' then .error .nulInPath
  else if path.text.isEmpty then .error .notFound
  else
    env.tree.walk follow linkLimit (if path.isAbsolute then [] else env.directory)
      (steps (Utf8.encode path.text))

def locate (env : Environment) (path : Path) : Except FileFault Location := env.locateWith true path

def holds (env : Environment) (path : Path) : Bool := (env.locate path).toBool

def entryAt? (env : Environment) (l : Location) : Option Entry :=
  if l.isEmpty then some .directory else env.tree.get? l

def entry? (env : Environment) (path : Path) : Option Entry :=
  match env.locate path with
  | .ok l => env.entryAt? l
  | .error _ => none

def read (env : Environment) (path : Path) : Except FileFault Bytes := do
  let l ← env.locate path
  match env.entryAt? l with
  | some (.file content) => .ok content
  | some (.program _ _) => .ok []
  | some .directory => .error .isDirectory
  | _ => .error .notFound

def readText (env : Environment) (path : Path) : Except FileFault Text := do
  let content ← env.read path
  match Utf8.decode content with
  | .ok t => .ok t
  | .error _ => .error .invalidData

def searchDirectories (searchPath : Text) : List Path := (Text.splitAt ':' searchPath).map Path.mk

def start (env : Environment) (path : Path) (arguments : List Text) (input : Text) :
    Except FileFault Completion := do
  let l ← env.locate path
  match env.entryAt? l with
  | some (.program p true) => .ok (p.run arguments input)
  | _ => .error .permissionDenied

/-- Tries the program `name` in each directory. A refusal on the way is reported at the end. -/
def startSearched (env : Environment) (name : Text) (arguments : List Text) (input : Text)
    (fault : FileFault) : List Path → Except FileFault Completion
  | [] => .error fault
  | d :: rest =>
      match env.start (d.join name) arguments input with
      | .ok done => .ok done
      | .error .permissionDenied => startSearched env name arguments input .permissionDenied rest
      | .error .tooManyLinks => .error .tooManyLinks
      | .error other =>
          startSearched env name arguments input
            (if fault = .permissionDenied then fault else other) rest

def run (env : Environment) (command : Path) (arguments : List Text) (input : Text) :
    Except FileFault Completion :=
  if (command.text :: arguments).any (·.contains '\x00') then .error .nulInCommand
  else if command.text.isEmpty then .error .notFound
  else if command.text.contains '/' then env.start command arguments input
  else env.startSearched command.text arguments input .notFound (searchDirectories env.searchPath)

/-- What a directory of a search path stands for when plugins are searched: one that begins with a
tilde for a place under the home directory, an empty one for the running directory. -/
def searched (env : Environment) (directory : Path) : Path :=
  let named := match directory.components with
    | .name ['~'] :: below => env.home.join (Path.ofComponents below).text
    | _ => directory
  if named.text.isEmpty then ⟨['.']⟩ else named

def installedProgram (env : Environment) (name : Text) (searchPath : Text) : Option Path :=
  let parts := (Path.mk name).components
  let candidates :=
    if 1 < parts.length then
      match env.directory.path? with
      | some d => [d.join (Path.ofComponents parts).text]
      | none => []
    else (searchDirectories searchPath).map fun d => (env.searched d).join name
  candidates.find? fun p => ((env.entry? p).map Entry.isExecutable).getD false

def placeFrom (env : Environment) (here : Location) : List Step → Location
  | [] => here
  | .stay :: rest => placeFrom env here rest
  | .up :: rest => placeFrom env here.dropLast rest
  | .into name :: rest =>
      if rest.isEmpty then here ++ [name]
      else
        match env.tree.walk true linkLimit here [.into name] with
        | .ok l => placeFrom env l rest
        | .error _ => placeFrom env (here ++ [name]) rest

def place (env : Environment) (path : Path) : Location :=
  env.placeFrom (if path.isAbsolute then [] else env.directory) (steps (Utf8.encode path.text))

def put (env : Environment) (l : Location) (e : Entry) : Environment :=
  { env with tree := env.tree.write l e }

def write (env : Environment) (path : Path) (content : Bytes) : Environment :=
  env.put ((env.locate path).toOption.getD (env.place path)) (.file content)

def remove (env : Environment) (path : Path) : Environment :=
  { env with tree := env.tree.remove (env.place path) }

end Environment
end ComponentFile.Files
