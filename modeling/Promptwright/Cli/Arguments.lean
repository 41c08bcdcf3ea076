import Promptwright.Prompt.Load

/-! # Arguments of the command line

`Arguments.parse` reads the arguments of the program.  Each command has its switches: options,
which take a value, and flags, which do not.  A value is attached to its option or is the next
argument; single-letter flags may share a dash; after `--` nothing is a switch any more. -/

namespace Promptwright.Cli

/-- What a switch is for. -/
inductive Purpose
  | verbose
  | help
  | version
  | out
  | language
  | pattern
  | dir
  | packageRoot
  | name
deriving DecidableEq, Repr

/-- A switch. -/
structure Switch where
  purpose : Purpose
  long : String
  short : Option Char
  takesValue : Bool
  /-- Whether a value is a path, which cannot be empty. -/
  isPath : Bool
deriving DecidableEq, Repr

namespace Switch

def verbose : Switch := ⟨.verbose, "verbose", some 'v', false, false⟩

def help : Switch := ⟨.help, "help", some 'h', false, false⟩

def version : Switch := ⟨.version, "version", some 'V', false, false⟩

def out : Switch := ⟨.out, "out", some 'o', true, true⟩

def language : Switch := ⟨.language, "language", some 'l', true, false⟩

def pattern : Switch := ⟨.pattern, "match", some 'm', true, false⟩

def dir : Switch := ⟨.dir, "dir", some 'd', true, true⟩

def packageRoot : Switch := ⟨.packageRoot, "package-root", none, true, true⟩

def name : Switch := ⟨.name, "name", none, true, false⟩

end Switch

/-- The arguments that a command accepts. -/
structure Grammar where
  switches : List Switch
  /-- The number of files. -/
  files : Nat := 0
  /-- Whether the name of a command follows. -/
  commands : Bool := false

namespace Grammar

/-- Before the name of a command. -/
def top : Grammar := { switches := [.verbose, .help, .version], commands := true }

/-- Of `compile`. -/
def compile : Grammar where
  switches := [.verbose, .help, .out, .language, .pattern, .dir, .packageRoot]

/-- Of `languages`. -/
def languages : Grammar := { switches := [.verbose, .help] }

/-- Of `schema-check`. -/
def schemaCheck : Grammar :=
  { switches := [.verbose, .help, .language, .name], files := 1 }

end Grammar

/-- The arguments read so far. -/
structure Given where
  switches : List (Purpose × String) := []
  files : List String := []

namespace Given

/-- The value of a switch. -/
def get? (g : Given) (p : Purpose) : Option String := g.switches.lookup p

/-- Adds a switch with its value.  No switch may be given twice, and no path may be empty. -/
def add? (g : Given) (s : Switch) (value : String) : Option Given :=
  if (g.get? s.purpose).isSome || (s.isPath && value.isEmpty) then none
  else some { g with switches := (s.purpose, value) :: g.switches }

end Given

/-- What comes of reading one argument, perhaps with the next one as its value. -/
inductive Step
  | misuse
  | help
  | version
  /-- Go on after this argument. -/
  | one (g : Given)
  /-- Go on after the next argument. -/
  | two (g : Given)

/-- Whether an argument cannot be the value of an option. -/
def looksLikeSwitch (a : String) : Bool := a.toList.head? == some '-' && a != "-"

/-- An option with the argument after it as its value. -/
def Step.ofNext (g : Given) (s : Switch) (next : Option String) : Step :=
  match next with
  | none => .misuse
  | some value =>
    if looksLikeSwitch value then .misuse
    else
      match g.add? s value with
      | some g => .two g
      | none => .misuse

/-- An option with a value attached. -/
def Step.ofAttached (g : Given) (s : Switch) (value : String) : Step :=
  match g.add? s value with
  | some g => .one g
  | none => .misuse

/-- A switch with a long name, and its value after an equals sign if there is one. -/
def Step.ofLong (gr : Grammar) (g : Given) (long : String) (value next : Option String) : Step :=
  match gr.switches.find? fun s => s.long == long with
  | none => .misuse
  | some s =>
    if s.takesValue then
      match value with
      | some value => .ofAttached g s value
      | none => .ofNext g s next
    else if value.isSome then .misuse
    else if s.purpose = .help then .help
    else if s.purpose = .version then .version
    else .ofAttached g s ""

/-- Switches with one letter each.  What follows the letter of an option is its value. -/
def Step.ofShort (gr : Grammar) (next : Option String) : Given → List Char → Step
  | g, [] => .one g
  | g, c :: cs =>
    match gr.switches.find? fun s => s.short == some c with
    | none => .misuse
    | some s =>
      if s.takesValue then
        match cs with
        | [] => .ofNext g s next
        | '=' :: value => .ofAttached g s (String.ofList value)
        | value => .ofAttached g s (String.ofList value)
      else if s.purpose = .help then .help
      else if s.purpose = .version then .version
      else
        match g.add? s "" with
        | some g => ofShort gr next g cs
        | none => .misuse

/-- An argument that starts with a dash. -/
def Step.ofSwitch (gr : Grammar) (g : Given) (a : String) (next : Option String) : Step :=
  match a.toList with
  | '-' :: '-' :: cs =>
    match Text.cutAt? '=' cs with
    | some (long, value) =>
      .ofLong gr g (String.ofList long) (some (String.ofList value)) next
    | none => .ofLong gr g (String.ofList cs) none next
  | _ :: cs => .ofShort gr next g cs
  | [] => .misuse

/-- What comes of reading arguments. -/
inductive Parsed
  | misuse
  | help
  | version
  | done (g : Given)
  /-- The name of a command, and the arguments after it. -/
  | command (name : String) (rest : List String)

/-- Reads arguments, after `--` if `literal` says so. -/
def read (gr : Grammar) : Bool → Given → List String → Parsed
  | _, g, [] => .done g
  | literal, g, a :: rest =>
    if !literal && a == "--" then read gr true g rest
    else if !literal && looksLikeSwitch a then
      match Step.ofSwitch gr g a rest.head? with
      | .misuse => .misuse
      | .help => .help
      | .version => .version
      | .one g => read gr literal g rest
      | .two g =>
        match rest with
        | [] => .misuse
        | _ :: rest => read gr literal g rest
    else if gr.commands then (if literal then .misuse else .command a rest)
    else if g.files.length < gr.files && !a.isEmpty then
      read gr literal { g with files := g.files ++ [a] } rest
    else .misuse

/-! ## Commands -/

/-- What the program is asked to do. -/
inductive Command
  | compile (out language pattern dir packageRoot : String)
  | languages
  | schemaCheck (file language : String) (name : Option String)
deriving DecidableEq, Repr

/-- What the arguments mean. -/
inductive Request
  | misuse
  | help
  | version
  | run (c : Command)
deriving DecidableEq, Repr

/-- The dialect unless another one is asked for. -/
def defaultLanguage : String := "typescript"

/-- The command that the arguments after its name ask for. -/
def Request.ofReading (build : Given → Option Command) : Parsed → Request
  | .misuse => .misuse
  | .help => .help
  | .version => .version
  | .command .. => .misuse
  | .done g =>
    match build g with
    | some c => .run c
    | none => .misuse

/-- `compile`, which needs an output directory.  Unless another directory is given, the templates are
those of the program's own package, which is in the directory `home`. -/
def compileOf (home : String) (g : Given) : Option Command :=
  (g.get? .out).map fun out =>
    .compile out ((g.get? .language).getD defaultLanguage)
      ((g.get? .pattern).getD Prompt.defaultPattern) ((g.get? .dir).getD ".")
      ((g.get? .packageRoot).getD home)

/-- `schema-check`, which needs a file. -/
def schemaCheckOf (g : Given) : Option Command :=
  g.files.head?.map fun file =>
    .schemaCheck file ((g.get? .language).getD defaultLanguage) (g.get? .name)

/-- The names of all commands. -/
def commandNames : List String := ["compile", "languages", "schema-check", "help"]

/-- What a command with its arguments means. -/
def Request.ofCommand (home name : String) (args : List String) : Request :=
  match name with
  | "compile" => .ofReading (compileOf home) (read .compile false {} args)
  | "languages" => .ofReading (fun _ => some .languages) (read .languages false {} args)
  | "schema-check" => .ofReading schemaCheckOf (read .schemaCheck false {} args)
  | "help" =>
    match args with
    | [] => .help
    | [command] => if commandNames.contains command then .help else .misuse
    | _ => .misuse
  | _ => .misuse

/-- What all arguments of the program mean.  Some command must be named. -/
def Request.parse (home : String) (args : List String) : Request :=
  match read .top false {} args with
  | .misuse => .misuse
  | .help => .help
  | .version => .version
  | .done _ => .misuse
  | .command name rest => .ofCommand home name rest

end Promptwright.Cli
