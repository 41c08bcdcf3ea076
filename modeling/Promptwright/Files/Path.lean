import Promptwright.Text.Split

/-! # Paths

A path is a text.  Its parts are the names between the slashes; empty parts mean nothing, and
neither do single dots, except for one at the very start of a relative path.  Two paths that
differ in such details only have the same parts. -/

namespace Promptwright.Path

/-- A part of a path, in the order in which parts are sorted. -/
inductive Part
  | root
  | here
  | up
  | name (s : String)
deriving DecidableEq, Repr

/-- The texts between the slashes. -/
def segments (p : String) : List String := (Text.splitAt '/' p.toList).map String.ofList

/-- Whether a path starts at the root. -/
def isAbsolute (p : String) : Bool := p.toList.head? == some '/'

/-- What a segment means, if it means anything. -/
def part? (s : String) : Option Part :=
  if s = "" ∨ s = "." then none else if s = ".." then some .up else some (.name s)

/-- The parts of a path. -/
def parts (p : String) : List Part :=
  let ss := segments p
  let body := ss.filterMap part?
  if isAbsolute p then .root :: body
  else if ss.head? = some "." then .here :: body
  else body

/-- A path below a directory.  An absolute path stays as it is. -/
def join (dir p : String) : String :=
  if isAbsolute p || dir = "" then p
  else if dir.toList.getLast? = some '/' then dir ++ p
  else dir ++ "/" ++ p

/-- The path of what some names lead to from a directory. -/
def joinAll (dir : String) (names : List String) : String := names.foldl join dir

/-- The last part of a path, if it is a name. -/
def fileName? (p : String) : Option String :=
  match (parts p).getLast? with
  | some (.name s) => some s
  | _ => none

/-- A name before its last dot, and what follows the dot.  A dot at the start does not count. -/
def splitExtension (name : String) : String × Option String :=
  let cs := name.toList.reverse
  match cs.dropWhile (· != '.') with
  | [] => (name, none)
  | _ :: stem =>
    if stem.isEmpty then (name, none)
    else (String.ofList stem.reverse, some (String.ofList (cs.takeWhile (· != '.')).reverse))

/-- What follows the last dot of the file name. -/
def extension? (p : String) : Option String := (fileName? p).bind fun n => (splitExtension n).2

/-- The file name without its extension. -/
def stem? (p : String) : Option String := (fileName? p).map fun n => (splitExtension n).1

/-! ## Parents -/

/-- What a path starts with that is no name: a slash or a dot. -/
def head (p : String) : String :=
  match p.toList with
  | '/' :: _ => "/"
  | ['.'] => "."
  | '.' :: '/' :: _ => "."
  | _ => ""

/-- Segments without those at the end that mean nothing. -/
def trimSegments (ss : List String) : List String :=
  (ss.reverse.dropWhile fun s => (part? s).isNone).reverse

/-- The path without its last part; `none` for the root and for nothing. -/
def parent? (p : String) : Option String :=
  let head := head p
  let body := trimSegments (segments (String.ofList (p.toList.drop head.length)))
  if body.isEmpty then (if head = "." then some "" else none)
  else some (head ++ "/".intercalate (trimSegments body.dropLast))

/-! ## Order -/

/-- Whether one text comes before another or is the same, in the order of code points. -/
def textLe : List Char → List Char → Bool
  | [], _ => true
  | _ :: _, [] => false
  | a :: as, b :: bs => if a < b then true else if b < a then false else textLe as bs

namespace Part

/-- The place of a part among the kinds of parts. -/
def rank : Part → Nat
  | .root => 0
  | .here => 1
  | .up => 2
  | .name _ => 3

/-- Whether one part comes before another or is the same. -/
def le : Part → Part → Bool
  | .name a, .name b => textLe a.toList b.toList
  | a, b => a.rank ≤ b.rank

end Part

/-- Whether one list of parts comes before another or is the same. -/
def partsLe : List Part → List Part → Bool
  | [], _ => true
  | _ :: _, [] => false
  | a :: as, b :: bs => if a = b then partsLe as bs else a.le b

/-- Whether one path comes before another or has the same parts. -/
def le (p q : String) : Bool := partsLe (parts p) (parts q)

end Promptwright.Path
