import ComponentFile.Files.Path
import ComponentFile.Text.Utf8
import ComponentFile.Table

/-! File trees as values. A tree lists every entry under the names that lead to it from the root;
names are bytes, which need not be text. A path is followed one name at a time: every name on the
way must exist, links are replaced by their targets, and only directories can be entered. -/
namespace ComponentFile.Files
open Utf8 (Bytes)

abbrev Name := Bytes

abbrev Location := List Name

structure Completion where
  status : UInt8
  stdout : Bytes
  stderr : Bytes
  deriving DecidableEq, Repr

structure Program where
  run : (arguments : List Text) → (input : Text) → Completion

inductive Entry where
  | file (content : Bytes)
  | program (p : Program) (executable : Bool)
  | directory
  | link (target : Bytes)

namespace Entry

def isRegular : Entry → Bool
  | .file _ => true
  | .program _ _ => true
  | _ => false

def isDirectory : Entry → Bool
  | .directory => true
  | _ => false

def isLink : Entry → Bool
  | .link _ => true
  | _ => false

def isExecutable : Entry → Bool
  | .program _ executable => executable
  | _ => false

end Entry

inductive FileFault where
  | notFound
  | isDirectory
  | notDirectory
  | permissionDenied
  | tooManyLinks
  | invalidData
  | nulInPath
  | nulInCommand
  deriving DecidableEq, Repr

def FileFault.message : FileFault → Text
  | .notFound => "No such file or directory (os error 2)"
  | .isDirectory => "Is a directory (os error 21)"
  | .notDirectory => "Not a directory (os error 20)"
  | .permissionDenied => "Permission denied (os error 13)"
  | .tooManyLinks => "Too many levels of symbolic links (os error 40)"
  | .invalidData => "stream did not contain valid UTF-8"
  | .nulInPath => "file name contained an unexpected NUL byte"
  | .nulInCommand => "nul byte found in provided data"

abbrev Tree := Table Location Entry

inductive Step where
  | stay
  | up
  | into (name : Name)
  deriving DecidableEq, Repr

def slash : UInt8 := 47

def step? (part : Bytes) : Option Step :=
  if part = [] then none
  else if part = Utf8.encode "." then some .stay
  else if part = Utf8.encode ".." then some .up
  else some (.into part)

/-- The steps of a path. A slash at its end asks for a directory, as a dot there does. -/
def steps (path : Bytes) : List Step :=
  (Text.splitAt slash path).filterMap step? ++
    (if path.getLast? = some slash then [Step.stay] else [])

namespace Tree

def isDirectory (t : Tree) (l : Location) : Bool :=
  l.isEmpty || (((t.get? l).map Entry.isDirectory).getD false)

/-- Follows steps from a directory up to a link, which `onward` goes on from. A last link is only
followed if `follow` says so. -/
def walkWith (t : Tree) (follow : Bool) (onward : Location → List Step → Except FileFault Location)
    (here : Location) : List Step → Except FileFault Location
  | [] => .ok here
  | step :: rest =>
      if !t.isDirectory here then .error .notDirectory
      else
        match step with
        | .stay => walkWith t follow onward here rest
        | .up => walkWith t follow onward here.dropLast rest
        | .into name =>
            match t.get? (here ++ [name]) with
            | none => .error .notFound
            | some (.link target) =>
                if rest.isEmpty && !follow then .ok (here ++ [name])
                else onward (if target.head? = some slash then [] else here) (steps target ++ rest)
            | some _ => walkWith t follow onward (here ++ [name]) rest

def walk (t : Tree) (follow : Bool) : Nat → Location → List Step → Except FileFault Location
  | 0 => walkWith t follow fun _ _ => .error .tooManyLinks
  | links + 1 => walkWith t follow (walk t follow links)

def write (t : Tree) (l : Location) (e : Entry) : Tree :=
  (makeDirectories t [] l.dropLast).put l e
where
  makeDirectories (t : Tree) (done : Location) : List Name → Tree
    | [] => t
    | name :: rest => makeDirectories (t.putNew (done ++ [name]) .directory) (done ++ [name]) rest

def remove (t : Tree) (l : Location) : Tree := t.filter fun entry => !l.isPrefixOf entry.1

end Tree

namespace Location

def path? (l : Location) : Option Path :=
  (l.mapM fun name => (Utf8.decode name).toOption).map fun names =>
    ⟨'/' :: List.intercalate ['/'] names⟩

def shown (l : Location) : Text := '/' :: List.intercalate ['/'] (l.map Utf8.decodeLenient)

end Location
end ComponentFile.Files
