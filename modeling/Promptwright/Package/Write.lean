import Promptwright.Package.File

/-! # Writing files

`OutputFile.writeAll` writes files below a directory, one after the other.  Missing directories
are created.  The first failure ends it; what was done before stays. -/

namespace Promptwright.OutputFile

/-- Creates the directory that a file goes to and writes the file.  Returns its path. -/
def write (t : FileTree) (dir : String) (f : OutputFile) :
    FileTree × Except CompileError String :=
  let target := Path.join dir f.path
  let parent := Path.parent? target
  let (t, made) := match parent with
    | some p => t.createDirs p
    | none => (t, .ok ())
  match made with
  | .error e => (t, .error (.write (parent.getD "") e))
  | .ok () =>
    match t.write target f.contents.toUTF8 with
    | .error e => (t, .error (.write target e))
    | .ok t => (t, .ok target)

/-- Writes files below a directory that is there.  Returns their paths. -/
def writeEach (dir : String) : FileTree → List OutputFile →
    FileTree × Except CompileError (List String)
  | t, [] => (t, .ok [])
  | t, f :: fs =>
    match f.write t dir with
    | (t, .error e) => (t, .error e)
    | (t, .ok path) =>
      match writeEach dir t fs with
      | (t, .error e) => (t, .error e)
      | (t, .ok paths) => (t, .ok (path :: paths))

/-- Writes files below a directory.  Returns their paths. -/
def writeAll (t : FileTree) (dir : String) (fs : List OutputFile) :
    FileTree × Except CompileError (List String) :=
  match t.createDirs dir with
  | (t, .error e) => (t, .error (.write dir e))
  | (t, .ok ()) => writeEach dir t fs

end Promptwright.OutputFile
