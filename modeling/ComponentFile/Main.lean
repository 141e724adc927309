import ComponentFile.CommandLine.Run

/-! The program on a machine: it takes a picture of the running directory and of every directory
that its words name, computes on the picture, and prints. Programs are no part of the picture. -/
namespace ComponentFile.CommandLine
open Files (Entry Environment Location Tree)

def bytesOf (s : String) : Utf8.Bytes := Utf8.encode s.toList

partial def pictureOf (entries : Array IO.FS.DirEntry) (l : Location) (t : Tree) : IO Tree := do
  let mut t := t
  for e in entries do
    let here := l ++ [bytesOf e.fileName]
    match (← e.path.symlinkMetadata).type with
    | .dir => t ← pictureOf (← e.path.readDir) here ((here, Entry.directory) :: t)
    | .file => t := (here, Entry.file (← IO.FS.readBinFile e.path).toList) :: t
    | .symlink =>
        if ← e.path.pathExists then
          t := (here, Entry.link (bytesOf (← IO.FS.realPath e.path).toString)) :: t
    | .other => pure ()
  return t

structure Picture where
  env : Environment
  seen : List Location

def Picture.add (p : Picture) (path : Path) : IO Picture := do
  let named := (← IO.currentDir) / String.ofList path.text
  if !(← named.pathExists) then return p
  let real ← IO.FS.realPath named
  let directory := if ← real.isDir then real else real.parent.getD real
  let l := p.env.place ⟨directory.toString.toList⟩
  let p ← if p.seen.any (·.isPrefixOf l) then pure p else do
    let env := { p.env with tree := p.env.tree.remove l }.put l .directory
    let tree ← pictureOf (← directory.readDir) l env.tree
    pure ⟨{ env with tree := tree }, l :: p.seen⟩
  if p.env.holds path then return p
  return { p with env := p.env.put (p.env.place path) (.link (bytesOf real.toString)) }

def machine (paths : List Path) : IO Environment := do
  let empty : Environment :=
    ⟨[], [], ((← IO.getEnv "PATH").getD "").toList, ⟨((← IO.getEnv "HOME").getD "").toList⟩⟩
  let directory := empty.place ⟨(← IO.FS.realPath (← IO.currentDir)).toString.toList⟩
  let p ← (Path.mk "." :: paths).foldlM Picture.add ⟨{ empty with directory := directory }, []⟩
  return p.env

end ComponentFile.CommandLine

open ComponentFile in
def main (words : List String) : IO UInt32 := do
  let words := words.map String.toList
  let paths := match CommandLine.Invocation.ofWords words with
    | .ok i => i.paths
    | .error _ => []
  let done := CommandLine.run (← CommandLine.machine paths) words
  (← IO.getStdout).putStr (String.ofList done.stdout)
  (← IO.getStderr).putStr (String.ofList done.stderr)
  return UInt32.ofNat done.code
