import ComponentFile.Files.Environment

/-! The regular files below a path. Directories are walked depth first and in byte order of names;
links that are met on the way are not followed, and directories may be passed over by name. -/
namespace ComponentFile.Files

def nameBefore : Name → Name → Bool
  | [], _ => true
  | _ :: _, [] => false
  | a :: s, b :: t => if a < b then true else if b < a then false else nameBefore s t

def locationBefore : Location → Location → Bool
  | [], _ => true
  | _ :: _, [] => false
  | a :: s, b :: t =>
      if a = b then locationBefore s t else nameBefore a b

namespace Tree

def below? (directory l : Location) : Option (List Name) :=
  if directory.isPrefixOf l && directory.length < l.length then some (l.drop directory.length)
  else none

def filesBelow (t : Tree) (skipped : Name → Bool) (directory : Location) : List (List Name) :=
  let found := t.filterMap fun (l, e) =>
    if e.isRegular then (below? directory l).filter fun names => !names.dropLast.any skipped
    else none
  found.mergeSort locationBefore

end Tree

namespace Environment

def spell? (root : Path) (names : List Name) : Option Path :=
  (names.mapM fun name => (Utf8.decode name).toOption).map (·.foldl Path.join root)

/-- The files at or below `root`. A root that is a link counts only if it leads to a directory. -/
def filesAt (env : Environment) (skipped : Name → Bool) (root : Path) : List Path :=
  match env.locate root with
  | .error _ => []
  | .ok l =>
      if env.tree.isDirectory l then (env.tree.filesBelow skipped l).filterMap (spell? root)
      else
        match env.locateWith false root with
        | .ok here => if ((env.entryAt? here).map Entry.isRegular).getD false then [root] else []
        | .error _ => []

end Environment
end ComponentFile.Files
