import Promptwright.Yaml.Cursor

/-! # Scalars that run over lines

In plain and in quoted scalars a single line break between words stands for a space, and each
further one for itself; white space around line breaks is dropped.  A `Folding` is such a scalar
in the making: the text so far, and the white space after it whose fate is still open. -/

namespace Promptwright.Yaml

/-- A folded scalar as far as it has been read; all lists are in reverse. -/
structure Folding where
  text : List Char
  /-- Blanks since the last word, as long as no line has ended. -/
  blanks : List Char
  /-- The first line break since the last word. -/
  leading : List Char
  /-- Further line breaks since the last word. -/
  trailing : List Char
  /-- Whether a line has ended since the last word. -/
  lineEnded : Bool
deriving Repr

namespace Folding

/-- Nothing read yet. -/
def empty : Folding := ⟨[], [], [], [], false⟩

/-- The text with the open white space settled, as it is when another word follows. -/
def settle (f : Folding) : Folding :=
  let space :=
    if !f.lineEnded then f.blanks
    else if f.leading = ['\n'] then (if f.trailing.isEmpty then [' '] else f.trailing)
    else f.trailing ++ f.leading
  ⟨space ++ f.text, [], [], [], false⟩

/-- Appends a character of a word. -/
def push (f : Folding) (c : Char) : Folding :=
  let f := f.settle
  { f with text := c :: f.text }

/-- Appends a blank; after a line break it does not count. -/
def pushBlank (f : Folding) (c : Char) : Folding :=
  if f.lineEnded then f else { f with blanks := c :: f.blanks }

/-- Appends a line break; blanks before the first one do not count. -/
def pushBreak (f : Folding) (br : List Char) : Folding :=
  if f.lineEnded then { f with trailing := br ++ f.trailing }
  else { f with blanks := [], leading := br, lineEnded := true }

/-- Reads a run of blanks and line breaks.  A tab at the start of a line before the column
`indent` is an error. -/
def takeSpace? (indent : Int) : Nat → Cursor → Folding → Option (Cursor × Folding)
  | 0, c, f => some (c, f)
  | fuel + 1, c, f =>
    match c.next with
    | none => some (c, f)
    | some x =>
      if isBlank x then
        if f.lineEnded && (c.column : Int) < indent && x == '\t' then none
        else takeSpace? indent fuel (c.advance 1) (f.pushBlank x)
      else if isBreak x then
        let (br, c) := c.takeBreak
        takeSpace? indent fuel c (f.pushBreak br)
      else some (c, f)

end Folding

/-! ## Plain scalars -/

namespace Plain

/-- An indicator that ends a plain scalar inside brackets. -/
def endsInFlow (c : Char) : Bool := c == ',' || c == '[' || c == ']' || c == '{' || c == '}'

/-- Reads the characters of a plain scalar up to the next white space or indicator.  Inside
brackets a colon may not stand right before one of them. -/
def takeWord? (flow : Bool) : Nat → Cursor → Folding → Option (Cursor × Folding)
  | 0, c, f => some (c, f)
  | fuel + 1, c, f =>
    match c.next with
    | none => some (c, f)
    | some x =>
      if endsWord (some x) then some (c, f)
      else if flow && x == ':' && (c.peek 1).any (fun y => y == '?' || endsInFlow y) then none
      else if (x == ':' && endsWord (c.peek 1)) || (flow && endsInFlow x) then some (c, f)
      else takeWord? flow fuel (c.advance 1) (f.push x)

/-- Reads a plain scalar: words, and the white space between them.  Outside brackets it ends
where a line starts before the column `indent`. -/
def take? (flow : Bool) (indent : Int) : Nat → Cursor → Folding → Option (Cursor × Folding)
  | 0, c, f => some (c, f)
  | fuel + 1, c, f =>
    if c.atDocumentMark || c.stands '#' then some (c, f)
    else
      match takeWord? flow fuel c f with
      | none => none
      | some (c, f) =>
        if !(c.next.any fun x => isBlank x || isBreak x) then some (c, f)
        else
          match Folding.takeSpace? indent fuel c f with
          | none => none
          | some (c, f) =>
            if !flow && (c.column : Int) < indent then some (c, f)
            else take? flow indent fuel c f

end Plain

/-! ## Quoted scalars -/

namespace Quoted

/-- The value of a hexadecimal digit. -/
def hexValue? (c : Char) : Option Nat :=
  if '0' ≤ c ∧ c ≤ '9' then some (c.toNat - '0'.toNat)
  else if 'a' ≤ c ∧ c ≤ 'f' then some (c.toNat - 'a'.toNat + 10)
  else if 'A' ≤ c ∧ c ≤ 'F' then some (c.toNat - 'A'.toNat + 10)
  else none

/-- The value of exactly `n` hexadecimal digits at the start of a text. -/
def hexNumber? (n : Nat) (cs : List Char) : Option Nat :=
  if cs.length < n then none
  else (cs.take n).foldl (fun v c => do return (← v) * 16 + (← hexValue? c)) (some 0)

/-- The character that a letter after a backslash stands for. -/
def simpleEscape? (c : Char) : Option Char :=
  match c with
  | '0' => some '\x00'
  | 'a' => some '\x07'
  | 'b' => some '\x08'
  | 't' => some '\t'
  | '\t' => some '\t'
  | 'n' => some '\n'
  | 'v' => some '\x0b'
  | 'f' => some '\x0c'
  | 'r' => some '\r'
  | 'e' => some '\x1b'
  | ' ' => some ' '
  | '"' => some '"'
  | '/' => some '/'
  | '\\' => some '\\'
  | 'N' => some '\u0085'
  | '_' => some '\u00a0'
  | 'L' => some '\u2028'
  | 'P' => some '\u2029'
  | _ => none

/-- The number of digits that a letter after a backslash asks for. -/
def escapeLength? (c : Char) : Option Nat :=
  if c = 'x' then some 2 else if c = 'u' then some 4 else if c = 'U' then some 8 else none

/-- The escape after a backslash: the character, and the number of characters it takes. -/
def escape? (cs : List Char) : Option (Char × Nat) :=
  match cs with
  | [] => none
  | e :: digits =>
    match simpleEscape? e with
    | some c => some (c, 1)
    | none => do
      let n ← escapeLength? e
      let v ← hexNumber? n digits
      if (0xD800 ≤ v ∧ v ≤ 0xDFFF) ∨ 0x10FFFF < v then none
      else return (Char.ofNat v, n + 1)

/-- Reads the characters of a quoted scalar up to the next white space or the closing quote.  In
double quotes a backslash at the end of a line takes the line break away. -/
def takeWord? (single : Bool) : Nat → Cursor → Folding → Option (Cursor × Folding)
  | 0, c, f => some (c, f)
  | fuel + 1, c, f =>
    match c.next with
    | none => some (c, f)
    | some x =>
      if endsWord (some x) then some (c, f)
      else if single then
        if x == '\'' then
          if c.peek 1 == some '\'' then takeWord? single fuel (c.advance 2) (f.push '\'')
          else some (c, f)
        else takeWord? single fuel (c.advance 1) (f.push x)
      else if x == '"' then some (c, f)
      else if x == '\\' then
        if (c.peek 1).any isBreak then
          some ((c.advance 1).skipBreak, { f with lineEnded := true })
        else
          match escape? (c.rest.drop 1) with
          | none => none
          | some (y, n) => takeWord? single fuel (c.advance (n + 1)) (f.push y)
      else takeWord? single fuel (c.advance 1) (f.push x)

/-- Reads a quoted scalar after its opening quote, and the closing quote. -/
def take? (single : Bool) : Nat → Cursor → Folding → Option (Cursor × Folding)
  | 0, _, _ => none
  | fuel + 1, c, f =>
    if c.atDocumentMark || c.next.isNone then none
    else
      match takeWord? single fuel c f with
      | none => none
      | some (c, f) =>
        if c.stands (if single then '\'' else '"') then some (c.advance 1, f)
        else
          match Folding.takeSpace? 0 fuel c f with
          | none => none
          | some (c, f) => take? single fuel c f.settle

end Quoted

end Promptwright.Yaml
