import Promptwright.Document.Node

/-! # Reading JSON texts

`Node.ofJsonText` reads a JSON text into a tree.  It never fails: where the text breaks the
rules of JSON, or nests containers too deeply, or holds a number that is too large, the tree has
a `fault`.  `Document.ofJsonText` also tells whether anything but white space follows.

The reader goes over the characters once.  Every step leaves fewer of them, so their number
bounds the recursion. -/

namespace Promptwright.JsonText

/-- The four characters that JSON takes for white space. -/
def isSpace (c : Char) : Bool := c == ' ' || c == '\n' || c == '\t' || c == '\r'

/-- The text from its first character that is not white space. -/
def skipSpace (cs : List Char) : List Char := cs.dropWhile isSpace

/-- The number of containers that may stand inside one another. -/
def maxDepth : Nat := 127

/-! ## Strings -/

/-- The value of a hexadecimal digit. -/
def hexValue? (c : Char) : Option Nat :=
  if '0' ≤ c ∧ c ≤ '9' then some (c.toNat - '0'.toNat)
  else if 'a' ≤ c ∧ c ≤ 'f' then some (c.toNat - 'a'.toNat + 10)
  else if 'A' ≤ c ∧ c ≤ 'F' then some (c.toNat - 'A'.toNat + 10)
  else none

/-- The value of four hexadecimal digits at the start of a text, and what follows. -/
def takeHex4? : List Char → Option (Nat × List Char)
  | a :: b :: c :: d :: cs => do
    let a ← hexValue? a
    let b ← hexValue? b
    let c ← hexValue? c
    let d ← hexValue? d
    return (((a * 16 + b) * 16 + c) * 16 + d, cs)
  | _ => none

/-- The character of a one-letter escape. -/
def simpleEscape? (c : Char) : Option Char :=
  if c = '"' then some '"'
  else if c = '\\' then some '\\'
  else if c = '/' then some '/'
  else if c = 'b' then some '\x08'
  else if c = 'f' then some '\x0c'
  else if c = 'n' then some '\n'
  else if c = 'r' then some '\r'
  else if c = 't' then some '\t'
  else none

/-- Reads what follows `\u`: a code unit, or a pair of surrogates with its second half escaped
in the same way.  A surrogate without its other half stands for no character. -/
def unicodeEscape? (cs : List Char) : Option (Char × List Char) := do
  let (unit, rest) ← takeHex4? cs
  if 0xDC00 ≤ unit ∧ unit ≤ 0xDFFF then none
  else if 0xD800 ≤ unit ∧ unit ≤ 0xDBFF then
    match rest with
    | '\\' :: 'u' :: rest => do
      let (low, rest) ← takeHex4? rest
      if 0xDC00 ≤ low ∧ low ≤ 0xDFFF then
        return (Char.ofNat (0x10000 + (unit - 0xD800) * 0x400 + (low - 0xDC00)), rest)
      else none
    | _ => none
  else return (Char.ofNat unit, rest)

/-- Reads the rest of a string after its opening quote: the characters up to the closing quote,
put after `done` (which is in reverse), and what follows that quote. -/
def takeString? : Nat → List Char → List Char → Option (String × List Char)
  | 0, _, _ => none
  | _ + 1, _, [] => none
  | fuel + 1, done, c :: cs =>
    if c = '"' then some (String.ofList done.reverse, cs)
    else if c = '\\' then
      match cs with
      | [] => none
      | e :: cs =>
        if e = 'u' then
          match unicodeEscape? cs with
          | none => none
          | some (c, cs) => takeString? fuel (c :: done) cs
        else
          match simpleEscape? e with
          | none => none
          | some c => takeString? fuel (c :: done) cs
    else if c.toNat < 0x20 then none
    else takeString? fuel (c :: done) cs

/-- Reads a string after its opening quote. -/
def string? (cs : List Char) : Option (String × List Char) :=
  takeString? (cs.length + 1) [] cs

/-! ## Numbers -/

/-- A run of digits at the start of a text, and what follows. -/
def takeDigits (cs : List Char) : List Char × List Char :=
  (cs.takeWhile Char.isDigit, cs.dropWhile Char.isDigit)

/-- Reads the digits before the point: a single zero, or digits that start with another. -/
def takeWhole? (cs : List Char) : Option (List Char × List Char) :=
  match takeDigits cs with
  | ([], _) => none
  | (['0'], rest) => some (['0'], rest)
  | ('0' :: _, _) => none
  | found => some found

/-- Reads a point and the digits after it, of which there is at least one; nothing if there is
no point. -/
def takeFraction? : List Char → Option (Option (List Char) × List Char)
  | '.' :: cs =>
    match takeDigits cs with
    | ([], _) => none
    | (ds, rest) => some (some ds, rest)
  | cs => some (none, cs)

/-- Reads an exponent; nothing if there is none. -/
def takeExponent? (cs : List Char) : Option (Option (Bool × List Char) × List Char) :=
  match cs with
  | [] => some (none, cs)
  | c :: rest =>
    if c = 'e' ∨ c = 'E' then
      let (negative, rest) := Binary64.takeSign rest
      match takeDigits rest with
      | ([], _) => none
      | (ds, rest) => some (some (negative, ds), rest)
    else some (none, cs)

/-- Reads a number. -/
def number? (cs : List Char) : Option (Json.Number × List Char) := do
  let (negative, cs) := match cs with
    | '-' :: cs => (true, cs)
    | cs => (false, cs)
  let (whole, cs) ← takeWhole? cs
  let (fraction, cs) ← takeFraction? cs
  let (exponent, cs) ← takeExponent? cs
  let n ← Json.Number.ofNumeral? ⟨negative, whole, fraction, exponent⟩
  return (n, cs)

/-! ## Values -/

/-- The text after a given word, if it starts with that word. -/
def afterWord? (word : List Char) (cs : List Char) : Option (List Char) :=
  if cs.take word.length = word then some (cs.drop word.length) else none

/-- The node of a number. -/
def numberNode : Json.Number → Node
  | .integer n => .atom (.integer n)
  | .float x => .atom (.float x)

mutual

/-- Reads a value, and returns what follows it; nothing follows a value with a fault. -/
def value : Nat → Nat → List Char → Node × Option (List Char)
  | 0, _, _ => (.fault, none)
  | fuel + 1, depth, cs =>
    match skipSpace cs with
    | [] => (.fault, none)
    | 'n' :: cs => word ['u', 'l', 'l'] .null cs
    | 't' :: cs => word ['r', 'u', 'e'] (.bool true) cs
    | 'f' :: cs => word ['a', 'l', 's', 'e'] (.bool false) cs
    | '"' :: cs =>
      match string? cs with
      | some (s, rest) => (.atom (.string s), some rest)
      | none => (.fault, none)
    | '[' :: cs =>
      if maxDepth ≤ depth then (.fault, none)
      else
        match skipSpace cs with
        | ']' :: rest => (.sequence false [], some rest)
        | cs =>
          let (items, rest) := items fuel (depth + 1) cs
          (.sequence false items, rest)
    | '{' :: cs =>
      if maxDepth ≤ depth then (.fault, none)
      else
        match skipSpace cs with
        | '}' :: rest => (.mapping false [], some rest)
        | cs =>
          let (entries, rest) := entries fuel (depth + 1) cs
          (.mapping false entries, rest)
    | cs =>
      match number? cs with
      | some (n, rest) => (numberNode n, some rest)
      | none => (.fault, none)
where
  /-- The rest of a word. -/
  word (rest : List Char) (a : Atom) (cs : List Char) : Node × Option (List Char) :=
    match afterWord? rest cs with
    | some cs => (.atom a, some cs)
    | none => (.fault, none)

/-- Reads the items of an array up to its closing bracket. -/
def items : Nat → Nat → List Char → List Node × Option (List Char)
  | 0, _, _ => ([.fault], none)
  | fuel + 1, depth, cs =>
    match value fuel depth cs with
    | (node, none) => ([node], none)
    | (node, some rest) =>
      match skipSpace rest with
      | ']' :: rest => ([node], some rest)
      | ',' :: rest =>
        let (nodes, rest) := items fuel depth rest
        (node :: nodes, rest)
      | _ => ([node, .fault], none)

/-- Reads the members of an object up to its closing brace. -/
def entries : Nat → Nat → List Char → List (Node × Node) × Option (List Char)
  | 0, _, _ => ([(.fault, .fault)], none)
  | fuel + 1, depth, cs =>
    match skipSpace cs with
    | '"' :: cs =>
      match string? cs with
      | none => ([(.fault, .fault)], none)
      | some (key, rest) =>
        let key := Node.atom (.string key)
        match skipSpace rest with
        | ':' :: rest =>
          match value fuel depth rest with
          | (node, none) => ([(key, node)], none)
          | (node, some rest) =>
            match skipSpace rest with
            | '}' :: rest => ([(key, node)], some rest)
            | ',' :: rest =>
              let (more, rest) := entries fuel depth rest
              ((key, node) :: more, rest)
            | _ => ([(key, node), (.fault, .fault)], none)
        | _ => ([(key, .fault)], none)
    | _ => ([(.fault, .fault)], none)

end

end JsonText

namespace Document

/-- Reads a JSON text.  The document is complete when only white space follows the value. -/
def ofJsonText (text : String) : Document :=
  match JsonText.value (2 * text.length + 2) 0 text.toList with
  | (root, none) => ⟨root, false⟩
  | (root, some rest) => ⟨root, (JsonText.skipSpace rest).isEmpty⟩

end Document

end Promptwright
