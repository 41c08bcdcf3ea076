import Promptwright.Files.Tree
import Promptwright.Glob.Pattern

/-! # Searching a tree with a glob pattern

`Glob.search` finds the files and directories that a pattern of several parts matches.  The parts
are followed one after the other: a part without wildcards is just a step of a path, one with
wildcards is tried on every name in a directory, and `**` on every directory at any depth.

Paths are found in the form in which the pattern leads to them, except that nothing is put
before the names in the current directory. -/

namespace Promptwright.Glob

/-- Whether a path is a mere dot. -/
def isCurrent (path : String) : Bool := Path.parts path == [.here]

/-- The path of a name in a directory. -/
def child (dir name : String) : String := if isCurrent dir then name else Path.join dir name

/-- The paths of all names in a directory. -/
def children (t : FileTree) (dir : String) : List String :=
  match t.resolve dir with
  | .ok loc => (t.children loc).map (child dir)
  | .error _ => []

/-- The paths of everything below a directory, each directory before what is in it.  No path
leads through more directories than the tree has entries. -/
def descendantsWith (t : FileTree) : Nat → String → List String
  | 0, _ => []
  | fuel + 1, dir =>
    (children t dir).flatMap fun path =>
      path :: (if t.isDir path then descendantsWith t fuel path else [])

/-- The paths of everything below a directory. -/
def descendants (t : FileTree) (dir : String) : List String :=
  descendantsWith t (t.entries.length + 1) dir

/-- Whether a pattern matches the file name of a path. -/
def matchesPath (p : Pattern) (path : String) : Bool :=
  match Path.fileName? path with
  | some name => p.matchesName name.toList
  | none => false

/-- The names `..` and `.`, if they are in a directory as far as a pattern is concerned: it has
to match them and to spell out the first dot. -/
def dotNames (p : Pattern) : List String :=
  if p.head? = some (.char '.') then
    [("..", ['.', '.']), (".", ['.'])].filterMap fun (name, cs) =>
      if p.matchesName cs then some name else none
  else []

/-- What the parts of a pattern match from a directory on. -/
def searchFrom (t : FileTree) : List Pattern → String → List String
  | [], path => [path]
  | p :: ps, path =>
    match p.literal? with
    | some cs =>
      let name := String.ofList cs
      let next := child path name
      if if name = "." ∨ name = ".." then t.isDir path else t.pathExists next then
        searchFrom t ps next
      else []
    | none =>
      if !t.isDir path then []
      else if !p.isRecursive then
        ((dotNames p).map (Path.join path)).flatMap (searchFrom t ps) ++
          ((children t path).filter (matchesPath p)).flatMap (searchFrom t ps)
      else
        match ps with
        | [] => (descendants t path).filter t.isDir
        | q :: qs => ((descendants t path).filter (matchesPath q)).flatMap (searchFrom t qs)

/-- Several `**` in a row mean no more than one. -/
def collapse : List Pattern → List Pattern
  | p :: q :: ps =>
    if p.isRecursive && q.isRecursive then collapse (q :: ps) else p :: collapse (q :: ps)
  | ps => ps

/-- The parts of a pattern between slashes. -/
def partsOf (pattern : String) : List String :=
  let ss := Path.segments pattern
  let ss := if Path.isAbsolute pattern then ss.drop 1 else ss
  if ss.getLast? = some "" then ss.dropLast else ss

/-- Everything that a pattern matches, in the order in which it is found.  A pattern that ends in
a slash matches directories only. -/
def search (t : FileTree) (pattern : String) : Except PatternError (List String) := do
  let _ ← Pattern.parse pattern
  let ps ← (partsOf pattern).mapM Pattern.parse
  let found :=
    if ps.isEmpty then []
    else searchFrom t (collapse ps) (if Path.isAbsolute pattern then "/" else ".")
  return if pattern.toList.getLast? = some '/' then found.filter t.isDir else found

end Promptwright.Glob
