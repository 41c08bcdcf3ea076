import Promptwright.Cli.Run

/-! # The program

`main` takes a picture of the files that the arguments may concern, runs the command on it, and
brings the changes of the picture to the disk.  Everything else happens in `Cli.run`. -/

namespace Promptwright.Disk

/-- The names on the way to a path, with dots resolved. -/
def locationOf (current : Location) (path : String) : Location :=
  (Path.parts path).foldl (fun loc part =>
    match part with
    | .root => []
    | .here => loc
    | .up => loc.dropLast
    | .name s => loc ++ [s]) (if Path.isAbsolute path then [] else current)

/-- The path of a location. -/
def pathOf (loc : Location) : String := "/" ++ "/".intercalate loc

/-- Adds a file, or a directory with everything below it.  Links are taken for what they lead to,
but only where they are files. -/
partial def add (loc : Location) (t : FileTree) : IO FileTree := do
  let path ← try IO.FS.realPath (pathOf loc) catch _ => return t
  if ← path.isDir then
    let mut t := t.put loc .directory
    for child in ← path.readDir do
      let type := (← child.path.symlinkMetadata).type
      if type == .dir || !(← child.path.isDir) then t ← add (loc ++ [child.fileName]) t
    return t
  else
    try return t.put loc (.file (← IO.FS.readBinFile (pathOf loc))) catch _ => return t

/-- Adds the directories on the way to a location, as far as they exist. -/
def addAncestors (loc : Location) (t : FileTree) : IO FileTree := do
  let mut t := t
  for n in List.range loc.length do
    let above := loc.take n
    if !above.isEmpty && (t.get? above).isNone then
      let found ← try some <$> IO.FS.realPath (pathOf above) catch _ => pure none
      if ← (found.map (·.isDir)).getD (pure false) then t := t.put above .directory
  return t

/-- The paths that a command looks at or writes to, beside the current directory. -/
def rootsOf : Cli.Request → List String
  | .run (.compile out _ _ dir packageRoot) => [out, dir, Path.join packageRoot templateDir]
  | .run (.schemaCheck file _ _) => [file]
  | _ => []

/-- The files that a request may concern. -/
def read (request : Cli.Request) : IO FileTree := do
  let current := locationOf [] (toString (← IO.currentDir))
  let mut t : FileTree := ⟨[], current⟩
  for path in "." :: rootsOf request do
    let loc := locationOf current path
    t ← addAncestors loc t
    t ← add loc t
  return t

/-- Whether an entry is there already. -/
def isUnchanged (old : Option (Location × Entry)) (new : Location × Entry) : Bool :=
  match old, new with
  | some (l, .directory), (m, .directory) => l == m
  | some (l, .file a), (m, .file b) => l == m && a == b
  | _, _ => false

/-- Brings what differs between two trees to the disk.  Changes keep the place of an entry, and
new entries come last. -/
def write (old new : FileTree) : IO Unit := do
  for (entry, i) in new.entries.zipIdx do
    if !isUnchanged old.entries[i]? entry then
      match entry with
      | (loc, .directory) => IO.FS.createDirAll (pathOf loc)
      | (loc, .file bytes) => IO.FS.writeBinFile (pathOf loc) bytes

end Promptwright.Disk

open Promptwright in
/-- Runs the command line program.  Its package is the directory that it lies in. -/
def main (args : List String) : IO UInt32 := do
  let home := toString ((← IO.appPath).parent.getD ".")
  let files ← Disk.read (Cli.Request.parse home args)
  let outcome := Cli.run home files args
  Disk.write files outcome.files
  IO.print outcome.printed
  if outcome.code = 2 then IO.eprint Cli.usage
  IO.eprint outcome.complaint
  return outcome.code.toUInt32
