import Promptwright.Files.Path

/-! # Trees of files

A `FileTree` is the state of a disk: which files and directories there are, and which directory
is the current one.  It is flat: every file and directory is listed under its `Location`, the
names on the way from the root.  Paths are looked up name by name, as a file system without
links does it, and every operation either succeeds or leaves the tree as it was.

* `resolve`, `entry`, `isFile`, `isDir`, `read`, `readText`, `readDir` and `children` look at a tree;
* `createDir`, `write` and `createDirs` change one. -/

namespace Promptwright

/-- Why the operating system refuses an operation. -/
inductive OsError
  | notFound
  | exists
  | notDirectory
  | isDirectory
  | nameTooLong
  /-- The path holds a character that ends it for the system. -/
  | nulInName
  /-- The file is not a text. -/
  | notText
  /-- Not even the start of a path can be created. -/
  | cannotCreateTree
deriving DecidableEq, Repr

/-- The wording of the operating system. -/
def OsError.message : OsError → String
  | .notFound => "No such file or directory (os error 2)"
  | .exists => "File exists (os error 17)"
  | .notDirectory => "Not a directory (os error 20)"
  | .isDirectory => "Is a directory (os error 21)"
  | .nameTooLong => "File name too long (os error 36)"
  | .nulInName => "file name contained an unexpected NUL byte"
  | .notText => "stream did not contain valid UTF-8"
  | .cannotCreateTree => "failed to create whole tree"

/-- The names on the way from the root to a file or directory. -/
abbrev Location := List String

/-- A file or a directory. -/
inductive Entry
  | directory
  | file (bytes : ByteArray)

/-- Whether an entry is a directory. -/
def Entry.isDirectory : Entry → Bool
  | .directory => true
  | .file _ => false

/-- The files and directories of a disk, the root apart, and the current directory. -/
structure FileTree where
  entries : List (Location × Entry)
  current : Location

namespace FileTree

/-! ## Looking at a tree -/

/-- What there is at a location. -/
def get? (t : FileTree) (loc : Location) : Option Entry :=
  if loc.isEmpty then some .directory else t.entries.lookup loc

/-- Whether there is a directory at a location. -/
def hasDir (t : FileTree) (loc : Location) : Bool :=
  match t.get? loc with
  | some .directory => true
  | _ => false

/-- The greatest number of bytes of a name. -/
def maxName : Nat := 255

/-- The greatest number of bytes of a path. -/
def maxPath : Nat := 4095

/-- Follows the segments of a path from a location. -/
def walk (t : FileTree) : Location → List String → Except OsError Location
  | loc, [] => .ok loc
  | loc, s :: ss =>
    if !t.hasDir loc then .error .notDirectory
    else if s = "" ∨ s = "." then walk t loc ss
    else if s = ".." then walk t loc.dropLast ss
    else if maxName < s.utf8ByteSize then .error .nameTooLong
    else if (t.get? (loc ++ [s])).isNone then .error .notFound
    else walk t (loc ++ [s]) ss

/-- What is wrong with a path before it is looked up. -/
def checkPath (p : String) : Except OsError Unit :=
  if p.toList.contains '\x00' then .error .nulInName
  else if p = "" then .error .notFound
  else if maxPath < p.utf8ByteSize then .error .nameTooLong
  else .ok ()

/-- Where a path starts. -/
def start (t : FileTree) (p : String) : Location := if Path.isAbsolute p then [] else t.current

/-- The location of a path, if there is anything. -/
def resolve (t : FileTree) (p : String) : Except OsError Location := do
  checkPath p
  t.walk (t.start p) (Path.segments p)

/-- The file or directory at a path. -/
def entry (t : FileTree) (p : String) : Except OsError Entry := do
  let loc ← t.resolve p
  match t.get? loc with
  | some e => .ok e
  | none => .error .notFound

/-- Whether there is anything at a path. -/
def pathExists (t : FileTree) (p : String) : Bool := (t.entry p).isOk

/-- Whether there is a file at a path. -/
def isFile (t : FileTree) (p : String) : Bool :=
  match t.entry p with
  | .ok (.file _) => true
  | _ => false

/-- Whether there is a directory at a path. -/
def isDir (t : FileTree) (p : String) : Bool :=
  match t.entry p with
  | .ok .directory => true
  | _ => false

/-- The bytes of the file at a path. -/
def read (t : FileTree) (p : String) : Except OsError ByteArray := do
  match ← t.entry p with
  | .file bytes => .ok bytes
  | .directory => .error .isDirectory

/-- The text of the file at a path. -/
def readText (t : FileTree) (p : String) : Except OsError String := do
  match String.fromUTF8? (← t.read p) with
  | some s => .ok s
  | none => .error .notText

/-- The name of a location just below a directory. -/
def childName? (dir loc : Location) : Option String :=
  match loc.drop dir.length with
  | [name] => if loc.take dir.length = dir then some name else none
  | _ => none

/-- The names in a directory, in the order of the code points. -/
def children (t : FileTree) (dir : Location) : List String :=
  (t.entries.filterMap fun e => childName? dir e.1).mergeSort fun a b =>
    Path.textLe a.toList b.toList

/-- The names in the directory at a path, each with whether it is a directory, in the order in which
the disk has them. -/
def readDir (t : FileTree) (p : String) : Except OsError (List (String × Bool)) := do
  let dir ← t.resolve p
  if t.hasDir dir then
    return t.entries.filterMap fun (loc, e) =>
      (childName? dir loc).map fun name => (name, e.isDirectory)
  else .error .notDirectory

/-- The names on the way from a directory to a location anywhere below it. -/
def below? (dir loc : Location) : Option (List String) :=
  if loc.take dir.length = dir ∧ dir.length < loc.length then some (loc.drop dir.length) else none

/-- Whether one list of names comes before another or is the same. -/
def namesLe : List String → List String → Bool
  | [], _ => true
  | _ :: _, [] => false
  | a :: as, b :: bs => if a = b then namesLe as bs else Path.textLe a.toList b.toList

/-- The files at any depth below a directory, each with the names on the way to it, in the order
of these names. -/
def filesBelow (t : FileTree) (dir : Location) : List (List String × ByteArray) :=
  (t.entries.filterMap fun (loc, e) =>
    match e, below? dir loc with
    | .file bytes, some names => some (names, bytes)
    | _, _ => none).mergeSort fun a b => namesLe a.1 b.1

/-- The files at any depth below the directory at a path, each with its path, in the order of the
code points of these paths.  A directory that is missing has none. -/
def listing (t : FileTree) (dir : String) : List (String × ByteArray) :=
  match t.resolve dir with
  | .error _ => []
  | .ok loc =>
    ((t.filesBelow loc).map fun (names, bytes) =>
      (dir ++ "/" ++ "/".intercalate names, bytes)).mergeSort fun a b =>
        Path.textLe a.1.toList b.1.toList

/-! ## Changing a tree -/

/-- Sets what there is at a location. -/
def put (t : FileTree) (loc : Location) (e : Entry) : FileTree :=
  { t with entries := set t.entries }
where
  /-- Replaces the entry of the location, or adds one at the end. -/
  set : List (Location × Entry) → List (Location × Entry)
    | [] => [(loc, e)]
    | (l, x) :: es => if l = loc then (loc, e) :: es else (l, x) :: set es

/-- Follows all but the last segment of a path, which must lead to a directory. -/
def walkToLast (t : FileTree) (p : String) (ss : List String) : Except OsError Location := do
  let dir ← t.walk (t.start p) ss.dropLast
  if t.hasDir dir then .ok dir else .error .notDirectory

/-- Creates a directory in one that is there already. -/
def createDir (t : FileTree) (p : String) : Except OsError FileTree := do
  checkPath p
  let ss := ((Path.segments p).reverse.dropWhile (· = "")).reverse
  let dir ← t.walkToLast p ss
  match ss.getLast? with
  | none => .error .exists
  | some name =>
    if name = "." ∨ name = ".." then .error .exists
    else if maxName < name.utf8ByteSize then .error .nameTooLong
    else if (t.get? (dir ++ [name])).isSome then .error .exists
    else .ok (t.put (dir ++ [name]) .directory)

/-- Writes a file, whether it is there already or not. -/
def write (t : FileTree) (p : String) (bytes : ByteArray) : Except OsError FileTree := do
  checkPath p
  let ss := Path.segments p
  let dir ← t.walkToLast p ss
  let name := ss.getLast?.getD ""
  if name = "" ∨ name = "." ∨ name = ".." then .error .isDirectory
  else if maxName < name.utf8ByteSize then .error .nameTooLong
  else
    match t.get? (dir ++ [name]) with
    | some .directory => .error .isDirectory
    | _ => .ok (t.put (dir ++ [name]) (.file bytes))

/-- Creates a directory and, first, all directories on the way to it that are missing.  What was
created before a failure stays.  A path has fewer parts than characters, which bounds the number
of steps. -/
def createDirsWith : Nat → FileTree → String → FileTree × Except OsError Unit
  | 0, t, _ => (t, .error .cannotCreateTree)
  | fuel + 1, t, p =>
    if p = "" then (t, .ok ())
    else
      match t.createDir p with
      | .ok t => (t, .ok ())
      | .error .notFound =>
        match Path.parent? p with
        | none => (t, .error .cannotCreateTree)
        | some parent =>
          match createDirsWith fuel t parent with
          | (t, .error e) => (t, .error e)
          | (t, .ok ()) =>
            match t.createDir p with
            | .ok t => (t, .ok ())
            | .error e => (t, if t.isDir p then .ok () else .error e)
      | .error e => (t, if t.isDir p then .ok () else .error e)

/-- Creates a directory and all missing ones on the way to it. -/
def createDirs (t : FileTree) (p : String) : FileTree × Except OsError Unit :=
  createDirsWith (p.length + 1) t p

end FileTree

end Promptwright
