import Promptwright.Document.Mismatch

/-! # Reading trees against shapes

The readers here take a part of a document and return the value it stands for, or the first
mismatch in the order of the text.  `Node.text`, `Node.signed`, `Node.json` and the like read
one value each; `Record` describes the fields of a record and `Record.read` reads one.

All readers walk from left to right and stop at the first mismatch, so that an unreadable rest
of a text goes unnoticed if something before it is wrong already. -/

namespace Promptwright

/-- The result of reading a part of a document. -/
abbrev Reading := Except Mismatch

namespace Scalar

/-- The atom of a scalar, or the mismatch between its tag and its text. -/
def atom (s : Scalar) : Reading Atom :=
  match s.atom? with
  | .ok a => .ok a
  | .error expected => .error (.invalidValue (.atom (.string s.text)) expected)

end Scalar

namespace Node

/-! ## Refusals -/

/-- The mismatch of a node that is not what is expected. -/
def refuse {α : Type} (expected : String) : Node → Reading α
  | .absent => .error .unreadable
  | .fault => .error .unreadable
  | .atom a => .error (.invalidType (.atom a) expected)
  | .scalar s => do
    let a ← s.atom
    .error (.invalidType (.atom a) expected)
  | .sequence .. => .error (.invalidType .sequence expected)
  | .mapping .. => .error (.invalidType .mapping expected)

/-! ## Values without parts -/

/-- A text.  In YAML every scalar is one, whatever it might mean elsewhere. -/
def text (expected : String) : Node → Reading String
  | .atom (.string s) => .ok s
  | .scalar s => .ok s.text
  | n => n.refuse expected

/-- A boolean. -/
def bool : Node → Reading Bool
  | .atom (.bool b) => .ok b
  | .scalar s =>
    match if s.admits Scalar.boolTag then Scalar.bool? s.text else none with
    | some b => .ok b
    | none => (Node.scalar s).refuse "a boolean"
  | n => n.refuse "a boolean"

/-- Whether a number is a signed one of 64 bits. -/
def isSigned (n : Int) : Bool := -Json.Number.signedBound ≤ n && n < Json.Number.signedBound

/-- A whole number of 64 bits with a sign. -/
def signed : Node → Reading Int
  | .atom (.integer n) =>
    if isSigned n then .ok n else .error (.invalidValue (.atom (.integer n)) "i64")
  | .scalar s =>
    match if s.admits Scalar.intTag then (Scalar.integer? s.text).filter isSigned else none with
    | some n => .ok n
    | none => (Node.scalar s).refuse "i64"
  | n => n.refuse "i64"

/-- A floating number; whole numbers will do. -/
def float : Node → Reading Binary64
  | .atom (.integer n) => .ok (Binary64.ofInt n)
  | .atom (.float x) => .ok x
  | .scalar s =>
    match if s.admits Scalar.floatTag then Scalar.float? s.text else none with
    | some x => .ok x
    | none => (Node.scalar s).refuse "f64"
  | n => n.refuse "f64"

/-! ## Optional values and lists -/

/-- Whether there is a value, and not null or nothing. -/
def isGiven : Node → Reading Bool
  | .absent => .ok false
  | .fault => .error .unreadable
  | .atom .null => .ok false
  | .scalar s =>
    if s.style ≠ .plain then .ok true
    else
      match s.tag with
      | none => .ok (!(s.text.isEmpty || Scalar.isNullWord s.text))
      | some t =>
        if t ≠ Scalar.nullTag then .ok true
        else if Scalar.isNullWord s.text then .ok false
        else .error (.invalidValue (.atom (.string s.text)) "null")
  | _ => .ok true

/-- A value that may be left out or null. -/
def optional {α : Type} (read : Node → Reading α) (n : Node) : Reading (Option α) := do
  if ← n.isGiven then some <$> read n else return none

/-- A list.  In YAML nothing at all is the empty list. -/
def list {α : Type} (read : Node → Reading α) : Node → Reading (List α)
  | .sequence _ items => items.mapM read
  | .absent => .ok []
  | .scalar s => if s.isEmptyPlain then .ok [] else (Node.scalar s).refuse "a sequence"
  | n => n.refuse "a sequence"

/-! ## Arbitrary values -/

/-- The JSON value of an atom.  Infinities and "not a number" become null. -/
def ofAtom : Atom → Reading Json
  | .null => .ok .null
  | .bool b => .ok (.bool b)
  | .integer n => .ok (.number (.integer n))
  | .wide _ => .error .unreadable
  | .float x => .ok (if x.isFinite then .number (.float x) else .null)
  | .string s => .ok (.string s)

/-- What any JSON value is called. -/
def anyValue : String := "any valid JSON value"

mutual

/-- Any value.  Tags of the document's own stand for none. -/
def json : Node → Reading Json
  | .absent => .ok .null
  | .fault => .error .unreadable
  | .atom a => ofAtom a
  | .scalar s =>
    if Scalar.isLocalTag s.tag then .error (.invalidType .tagged anyValue)
    else do ofAtom (← s.atom)
  | .sequence tagged items =>
    if tagged then .error (.invalidType .tagged anyValue)
    else do return .array (← jsonItems items)
  | .mapping tagged entries =>
    if tagged then .error (.invalidType .tagged anyValue)
    else do return .object (← jsonMembers entries [])
  termination_by structural n => n

/-- The items of a list of any values. -/
def jsonItems : List Node → Reading (List Json)
  | [] => .ok []
  | n :: ns => do
    let j ← json n
    return j :: (← jsonItems ns)
  termination_by structural ns => ns

/-- The members of an object, put after those in `done`.  Keys are texts. -/
def jsonMembers : List (Node × Node) → Json.Members → Reading Json.Members
  | [], done => .ok done
  | (k, v) :: es, done => do
    let key ← k.text (if done.isEmpty then "a string key" else "a string")
    let j ← json v
    jsonMembers es (Json.Members.insert done key j)
  termination_by structural es => es

end

/-! ## Setting parts aside -/

/-- What any part of a document is called while it is set aside. -/
def anyPart : String := "any value"

/-- A scalar or an atom that is set aside: it gets its own meaning, whatever will be asked for. -/
def settle (expected : String) (a : Atom) : Reading Atom :=
  match a with
  | .wide n => .error (.invalidType (.atom (.wide n)) expected)
  | a => .ok a

mutual

/-- Sets a part aside until its shape is known: scalars get the meaning they have on their own. -/
def setAside (expected : String) : Node → Reading Node
  | .absent => .ok (.atom .null)
  | .fault => .error .unreadable
  | .atom a => do return .atom (← settle expected a)
  | .scalar s =>
    if Scalar.isLocalTag s.tag then .error .unreadable
    else do return .atom (← settle expected (← s.atom))
  | .sequence tagged items =>
    if tagged then .error .unreadable
    else do return .sequence false (← setItemsAside items)
  | .mapping tagged entries =>
    if tagged then .error .unreadable
    else do return .mapping false (← setEntriesAside entries)
  termination_by structural n => n

/-- Sets the items of a list aside. -/
def setItemsAside : List Node → Reading (List Node)
  | [] => .ok []
  | n :: ns => do
    let n ← setAside anyPart n
    return n :: (← setItemsAside ns)
  termination_by structural ns => ns

/-- Sets the entries of a mapping aside. -/
def setEntriesAside : List (Node × Node) → Reading (List (Node × Node))
  | [] => .ok []
  | (k, v) :: es => do
    let k ← setAside anyPart k
    let v ← setAside anyPart v
    return (k, v) :: (← setEntriesAside es)
  termination_by structural es => es

end

end Node

/-! ## Records -/

/-- A field of a record that is kept in a `σ`: its name, how its value is read and put there,
and whether it has to be given. -/
structure Field (σ : Type) where
  name : String
  required : Bool
  read : Source → Node → σ → Reading σ

/-- The shape of a record that is kept in a `σ`, which starts as `blank`. -/
structure Record (σ : Type) where
  title : String
  fields : List (Field σ)
  blank : σ

namespace Record

variable {σ : Type}

/-- The names of the fields. -/
def names (r : Record σ) : List String := r.fields.map Field.name

/-- What the record is called, with the number of its fields. -/
def titleWithSize (r : Record σ) : String :=
  r.title ++ " with " ++ toString r.fields.length ++
    (if r.fields.length = 1 then " element" else " elements")

/-- The field that a key names.  In a part that was set aside, a number may stand for the field
at that place. -/
def field (r : Record σ) (src : Source) (key : Node) : Reading (Field σ) :=
  match key, src with
  | .atom (.integer n), .aside _ =>
    if n < 0 then key.refuse "field identifier"
    else
      match r.fields[n.toNat]? with
      | some f => .ok f
      | none =>
        .error (.invalidValue (.atom (.integer n))
          ("field index 0 <= i < " ++ toString r.fields.length))
  | _, _ => do
    let name ← key.text "field identifier"
    match r.fields.find? fun f => f.name == name with
    | some f => .ok f
    | none => .error (.unknownField name r.names)

/-- Reads the entries of a mapping into a state; `seen` holds the names met so far. -/
def readEntries (r : Record σ) (src : Source) :
    List (Node × Node) → List String → σ → Reading (List String × σ)
  | [], seen, s => .ok (seen, s)
  | (key, value) :: es, seen, s => do
    let f ← r.field src key
    if seen.contains f.name then .error (.duplicateField f.name)
    else do
      let s ← f.read src value s
      readEntries r src es (f.name :: seen) s

/-- A record written as a mapping.  What is missing is noticed at the end. -/
def readMapping (r : Record σ) (src : Source) (entries : List (Node × Node)) : Reading σ := do
  let (seen, s) ← r.readEntries src entries [] r.blank
  match r.fields.find? fun f => f.required && !seen.contains f.name with
  | some f => .error (.missingField f.name)
  | none => .ok s

/-- Reads the items of a list as the fields of a record in order, from the field at `index` on;
returns the items that are left. -/
def readItems (r : Record σ) (src : Source) :
    List (Field σ) → Nat → List Node → σ → Reading (List Node × σ)
  | [], _, items, s => .ok (items, s)
  | f :: fs, index, [], s =>
    if f.required then .error (.invalidLength index r.titleWithSize)
    else readItems r src fs (index + 1) [] s
  | f :: fs, index, n :: ns, s => do
    let s ← f.read src n s
    readItems r src fs (index + 1) ns s

/-- The mismatch of a record with more items than fields. -/
def excess (src : Source) (given expected : Nat) : Mismatch :=
  match src with
  | .aside _ =>
    .invalidLength given
      (toString expected ++ (if expected = 1 then " element" else " elements") ++ " in sequence")
  | .value => .invalidLength given "fewer elements in array"
  | _ => .unreadable

/-- A record written as a list of its fields. -/
def readSequence (r : Record σ) (src : Source) (items : List Node) : Reading σ := do
  let (rest, s) ← r.readItems src r.fields 0 items r.blank
  if rest.isEmpty then .ok s else .error (excess src items.length r.fields.length)

/-- A record.  In YAML nothing at all is a record without entries. -/
def read (r : Record σ) (src : Source) (n : Node) : Reading σ :=
  match n with
  | .mapping _ entries => r.readMapping src entries
  | .sequence _ items => if src = .yaml then n.refuse r.title else r.readSequence src items
  | .absent => r.readMapping src []
  | .scalar s => if s.isEmptyPlain then r.readMapping src [] else n.refuse r.title
  | n => n.refuse r.title

end Record

end Promptwright
