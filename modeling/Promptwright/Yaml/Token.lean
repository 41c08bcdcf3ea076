import Promptwright.Document.Node
import Promptwright.Yaml.Block
import Promptwright.Yaml.Folding

/-! # YAML tokens

`Token.ofText` cuts a text into tokens.  What makes this more than a lexer is that block
structure has to be made explicit, and that a key is only known as such when its colon is met:
every place where a key may start is remembered, and the tokens for the key and for the start
of its mapping are put in there afterwards.  A key without a question mark ends on the line on
which it starts, within 1024 characters.

If the text breaks the rules, the tokens before the offending place are returned, up to the
first one of which it is not yet known whether it is a key. -/

namespace Promptwright.Yaml

/-- A token of a YAML text. -/
inductive Token
  | streamEnd
  | versionDirective (major minor : Nat)
  | tagDirective (handle expansion : String)
  | documentStart
  | documentEnd
  | blockSequenceStart
  | blockMappingStart
  | blockEnd
  | flowSequenceStart
  | flowSequenceEnd
  | flowMappingStart
  | flowMappingEnd
  | blockEntry
  | flowEntry
  | key
  | value
  | alias (name : String)
  | anchor (name : String)
  | tag (handle suffix : String)
  | scalar (text : String) (style : ScalarStyle)
deriving DecidableEq, Repr

/-- A place where a key without a question mark may start: the number of its first token, and
where that stands.  If it is `required`, it has to be a key. -/
structure KeyPlace where
  required : Bool
  number : Nat
  index : Nat
  line : Nat
  column : Nat
deriving Repr

/-- How far a text has been cut into tokens, which are kept in reverse. -/
structure Lexing where
  cursor : Cursor
  /-- The column of the innermost block, and of those around it. -/
  indent : Int
  outer : List Int
  /-- Whether a key may start here. -/
  keyAllowed : Bool
  /-- The place where a key may have started, outside all brackets and inside each pair. -/
  keyPlace : Option KeyPlace
  outerKeyPlaces : List (Option KeyPlace)
  tokens : List Token
  count : Nat
  ended : Bool
deriving Repr

namespace Lexing

/-- The start of a text. -/
def ofText (text : List Char) : Lexing :=
  ⟨.ofText text, -1, [], true, none, [], [], 0, false⟩

/-- Whether the cursor is inside brackets. -/
def inFlow (l : Lexing) : Bool := !l.outerKeyPlaces.isEmpty

/-- Adds a token at the end. -/
def emit (l : Lexing) (t : Token) : Lexing :=
  { l with tokens := t :: l.tokens, count := l.count + 1 }

/-- Puts a token in before the token of a given number. -/
def insert (l : Lexing) (number : Nat) (t : Token) : Lexing :=
  let back := l.count - number
  { l with tokens := l.tokens.take back ++ t :: l.tokens.drop back, count := l.count + 1 }

/-- Moves the cursor. -/
def moveTo (l : Lexing) (c : Cursor) : Lexing := { l with cursor := c }

/-- Moves past a number of characters. -/
def skip (l : Lexing) (n : Nat) : Lexing := l.moveTo (l.cursor.advance n)

/-! ## Blocks -/

/-- Opens a block at a column if it is further in than the current one.  The opening token goes
before the token `number`, or to the end. -/
def openBlock (l : Lexing) (column : Nat) (number : Option Nat) (t : Token) : Lexing :=
  if l.inFlow then l
  else if l.indent < column then
    let l := { l with indent := column, outer := l.indent :: l.outer }
    match number with
    | none => l.emit t
    | some n => l.insert n t
  else l

/-- Closes the blocks that are further in than a column. -/
def closeBlocks (column : Int) : List Int → Lexing → Lexing
  | [], l => l
  | i :: is, l =>
    if column < l.indent then
      closeBlocks column is ({ l with indent := i, outer := is }.emit .blockEnd)
    else l

/-- Closes the blocks that are further in than a column; inside brackets there are none. -/
def closeTo (l : Lexing) (column : Int) : Lexing :=
  if l.inFlow then l else closeBlocks column l.outer l

/-! ## Places of keys -/

/-- Forgets the place of a key that was not one; an error if it had to be. -/
def dropKeyPlace? (l : Lexing) : Option Lexing :=
  match l.keyPlace with
  | none => some l
  | some k => if k.required then none else some { l with keyPlace := none }

/-- Remembers that a key may start here, where that is allowed. -/
def markKeyPlace? (l : Lexing) : Option Lexing :=
  if !l.keyAllowed then some l
  else do
    let c := l.cursor
    let required := !l.inFlow && l.indent == c.column
    let l ← l.dropKeyPlace?
    return { l with keyPlace := some ⟨required, l.count, c.index, c.line, c.column⟩ }

/-- The greatest distance between the start of a key and its colon. -/
def maxKeyLength : Nat := 1024

/-- Whether it is too late for a key that started at a place. -/
def isStale (c : Cursor) (k : KeyPlace) : Bool :=
  k.line < c.line || k.index + maxKeyLength < c.index

/-- Forgets a place where a key may have started, if it is too late for it. -/
def refresh? (c : Cursor) : Option KeyPlace → Option (Option KeyPlace)
  | none => some none
  | some k => if isStale c k then (if k.required then none else some none) else some (some k)

/-- Forgets all places that it is too late for. -/
def dropStale? (l : Lexing) : Option Lexing := do
  let k ← refresh? l.cursor l.keyPlace
  let ks ← l.outerKeyPlaces.mapM (refresh? l.cursor)
  return { l with keyPlace := k, outerKeyPlaces := ks }

/-- The number of the first token of which it is open whether it is a key. -/
def firstOpen (l : Lexing) : Nat :=
  (l.keyPlace :: l.outerKeyPlaces).foldl
    (fun n k => match k with
      | some k => min n k.number
      | none => n)
    l.count

/-! ## Simple tokens -/

/-- Opens a pair of brackets. -/
def openFlow? (l : Lexing) (t : Token) : Option Lexing := do
  let l ← l.markKeyPlace?
  let l := { l with keyPlace := none, outerKeyPlaces := l.keyPlace :: l.outerKeyPlaces }
  return ({ l with keyAllowed := true }.skip 1).emit t

/-- Closes a pair of brackets. -/
def closeFlow? (l : Lexing) (t : Token) : Option Lexing := do
  let l ← l.dropKeyPlace?
  let l := match l.outerKeyPlaces with
    | [] => l
    | k :: ks => { l with keyPlace := k, outerKeyPlaces := ks }
  return ({ l with keyAllowed := false }.skip 1).emit t

/-- A comma between the items in brackets. -/
def flowEntry? (l : Lexing) : Option Lexing := do
  let l ← l.dropKeyPlace?
  return ({ l with keyAllowed := true }.skip 1).emit .flowEntry

/-- The hyphen before an item of a block sequence. -/
def blockEntry? (l : Lexing) : Option Lexing := do
  if !l.inFlow && !l.keyAllowed then none
  let l := l.openBlock l.cursor.column none .blockSequenceStart
  let l ← l.dropKeyPlace?
  return ({ l with keyAllowed := true }.skip 1).emit .blockEntry

/-- A question mark before a key. -/
def explicitKey? (l : Lexing) : Option Lexing := do
  if !l.inFlow && !l.keyAllowed then none
  let l := l.openBlock l.cursor.column none .blockMappingStart
  let l ← l.dropKeyPlace?
  return ({ l with keyAllowed := !l.inFlow }.skip 1).emit .key

/-- The colon before a value.  If a key may have started before it, now it has. -/
def value? (l : Lexing) : Option Lexing :=
  match l.keyPlace with
  | some k =>
    let l := (l.insert k.number .key).openBlock k.column (some k.number) .blockMappingStart
    some (({ l with keyPlace := none, keyAllowed := false }.skip 1).emit .value)
  | none => do
    if !l.inFlow && !l.keyAllowed then none
    let l := l.openBlock l.cursor.column none .blockMappingStart
    return ({ l with keyAllowed := !l.inFlow }.skip 1).emit .value

/-- One of the marks between documents. -/
def documentMark? (l : Lexing) (t : Token) : Option Lexing := do
  let l := l.closeTo (-1)
  let l ← l.dropKeyPlace?
  return ({ l with keyAllowed := false }.skip 3).emit t

/-- The end of the text. -/
def finish? (l : Lexing) : Option Lexing := do
  let l := l.closeTo (-1)
  let l ← l.dropKeyPlace?
  return { l with keyAllowed := false, ended := true }.emit .streamEnd

/-! ## Anchors and tags -/

/-- The name after `&` or `*`. -/
def name? (c : Cursor) : Option (String × Cursor) :=
  let (name, c) := c.takeWhile isNameChar
  if name.isEmpty then none
  else if endsWord c.next || c.next.any fun x => "?:,]\x7d%@\x60".toList.contains x then
    some (String.ofList name, c)
  else none

/-- An anchor or an alias. -/
def anchor? (l : Lexing) (make : String → Token) : Option Lexing := do
  let l ← l.markKeyPlace?
  let (name, c) ← name? (l.cursor.advance 1)
  return ({ l with keyAllowed := false }.moveTo c).emit (make name)

/-- A character of a tag; commas and square brackets only count where the tag is enclosed. -/
def isTagChar (enclosed : Bool) (c : Char) : Bool :=
  isNameChar c || ";/?:@&=+$.%!~*'()".toList.contains c || (enclosed && ",[]".toList.contains c)

/-- One byte written as a percent sign and two hexadecimal digits. -/
def byte? : List Char → Option (Nat × List Char)
  | '%' :: a :: b :: cs => do
    let a ← Quoted.hexValue? a
    let b ← Quoted.hexValue? b
    return (a * 16 + b, cs)
  | _ => none

/-- The bytes that continue a character. -/
def continuation? : Nat → Nat → List Char → Option (Nat × List Char)
  | 0, v, cs => some (v, cs)
  | n + 1, v, cs => do
    let (b, cs) ← byte? cs
    if b / 64 = 2 then continuation? n (v * 64 + b % 64) cs else none

/-- A character written as the bytes of its UTF-8 form. -/
def escapedChar? (cs : List Char) : Option (Char × List Char) := do
  let (b, cs) ← byte? cs
  let (n, v) ←
    if b < 128 then some (0, b)
    else if b / 32 = 6 then some (1, b % 32)
    else if b / 16 = 14 then some (2, b % 16)
    else if b / 8 = 30 then some (3, b % 8)
    else none
  let (v, cs) ← continuation? n v cs
  return (Char.ofNat v, cs)

/-- The characters of a tag, with escapes resolved, in reverse after `done`. -/
def tagText? (enclosed : Bool) : Nat → List Char → List Char → Option (List Char × List Char)
  | 0, done, cs => some (done, cs)
  | fuel + 1, done, cs =>
    match cs with
    | [] => some (done, cs)
    | c :: rest =>
      if c = '%' then
        match escapedChar? cs with
        | some (x, rest) => tagText? enclosed fuel (x :: done) rest
        | none => none
      else if isTagChar enclosed c then tagText? enclosed fuel (c :: done) rest
      else some (done, cs)

/-- The text of a tag after `head`, the part of it that was read already. -/
def tagSuffix? (enclosed : Bool) (head : List Char) (c : Cursor) : Option (String × Cursor) := do
  let (found, rest) ← tagText? enclosed c.rest.length (head.drop 1).reverse c.rest
  let c := c.advance (c.rest.length - rest.length)
  if head.isEmpty && found.isEmpty then none else return (String.ofList found.reverse, c)

/-- The handle of a tag: `!`, `!!` or `!name!`, or the start of a tag that has none. -/
def tagHandle? (directive : Bool) (c : Cursor) : Option (List Char × Cursor) :=
  if !c.stands '!' then none
  else
    let (name, c) := (c.advance 1).takeWhile isNameChar
    let handle := '!' :: name
    if c.stands '!' then some (handle ++ ['!'], c.advance 1)
    else if directive && handle ≠ ['!'] then none
    else some (handle, c)

/-- A tag. -/
def tag? (l : Lexing) : Option Lexing := do
  let l ← l.markKeyPlace?
  let c := l.cursor
  let (t, c) ←
    if c.peek 1 == some '<' then do
      let (suffix, c) ← tagSuffix? true [] (c.advance 2)
      if c.stands '>' then pure (Token.tag "" suffix, c.advance 1) else none
    else do
      let (handle, c) ← tagHandle? false c
      if 1 < handle.length && handle.getLast? == some '!' then do
        let (suffix, c) ← tagSuffix? false [] c
        pure (Token.tag (String.ofList handle) suffix, c)
      else do
        let (suffix, c) ← tagSuffix? false handle c
        pure (if suffix.isEmpty then Token.tag "" "!" else Token.tag "!" suffix, c)
  if endsWord c.next || (l.inFlow && c.stands ',') then
    return ({ l with keyAllowed := false }.moveTo c).emit t
  else none

/-! ## Directives -/

/-- A number of at most nine digits. -/
def versionNumber? (c : Cursor) : Option (Nat × Cursor) :=
  let (digits, c) := c.takeWhile Char.isDigit
  if digits.isEmpty || 9 < digits.length then none
  else some (Binary64.digitsValue 0 digits, c)

/-- The rest of a directive `%YAML`. -/
def versionDirective? (c : Cursor) : Option (Token × Cursor) := do
  let c := c.skipWhile isBlank
  let (major, c) ← versionNumber? c
  if !c.stands '.' then none
  let (minor, c) ← versionNumber? (c.advance 1)
  return (.versionDirective major minor, c)

/-- The rest of a directive `%TAG`. -/
def tagDirective? (c : Cursor) : Option (Token × Cursor) := do
  let (handle, c) ← tagHandle? true (c.skipWhile isBlank)
  if !c.next.any isBlank then none
  let (expansion, c) ← tagSuffix? true [] (c.skipWhile isBlank)
  if endsWord c.next then return (.tagDirective (String.ofList handle) expansion, c) else none

/-- A directive, which takes a line. -/
def directive? (l : Lexing) : Option Lexing := do
  let l := l.closeTo (-1)
  let l ← l.dropKeyPlace?
  let (name, c) := (l.cursor.advance 1).takeWhile isNameChar
  if name.isEmpty || !endsWord c.next then none
  let (t, c) ←
    if name = ['Y', 'A', 'M', 'L'] then versionDirective? c
    else if name = ['T', 'A', 'G'] then tagDirective? c
    else none
  let c := c.skipWhile isBlank
  let c := if c.stands '#' then c.skipLine else c
  if endsLine c.next then return ({ l with keyAllowed := false }.moveTo c.skipBreak).emit t
  else none

/-! ## Scalars -/

/-- A block scalar. -/
def blockScalar? (l : Lexing) (isLiteral : Bool) : Option Lexing := do
  let l ← l.dropKeyPlace?
  let c := l.cursor.advance 1
  let (c, text) ← Block.take? isLiteral l.indent (c.rest.length + 1) c
  return ({ l with keyAllowed := true }.moveTo c).emit
    (.scalar (String.ofList text) (if isLiteral then .literal else .folded))

/-- A quoted scalar. -/
def quotedScalar? (l : Lexing) (single : Bool) : Option Lexing := do
  let l ← l.markKeyPlace?
  let c := l.cursor.advance 1
  let (c, f) ← Quoted.take? single (c.rest.length + 2) c .empty
  return ({ l with keyAllowed := false }.moveTo c).emit
    (.scalar (String.ofList f.text.reverse) (if single then .singleQuoted else .doubleQuoted))

/-- A plain scalar.  After one that ends with its line, a key may start. -/
def plainScalar? (l : Lexing) : Option Lexing := do
  let l ← l.markKeyPlace?
  let c := l.cursor
  let (c, f) ← Plain.take? l.inFlow (l.indent + 1) (c.rest.length + 1) c .empty
  return ({ l with keyAllowed := f.lineEnded }.moveTo c).emit
    (.scalar (String.ofList f.text.reverse) .plain)

/-! ## All tokens -/

/-- Skips white space, comments and line ends.  After a line end outside brackets a key may
start; where one may, a tab is no white space.  At the start of a line a byte order mark is
skipped too, but it takes a column like any other character. -/
def skipSpace : Nat → Lexing → Lexing
  | 0, l => l
  | fuel + 1, l =>
    let tabs := l.inFlow || !l.keyAllowed
    let c := if l.cursor.column == 0 && l.cursor.stands '\ufeff' then l.cursor.advance 1
      else l.cursor
    let c := c.skipWhile fun x => x == ' ' || (tabs && x == '\t')
    let c := if c.stands '#' then c.skipLine else c
    if c.next.any isBreak then
      skipSpace fuel { l with cursor := c.skipBreak, keyAllowed := l.keyAllowed || !l.inFlow }
    else l.moveTo c

/-- Whether a plain scalar may start here. -/
def startsPlain (flow : Bool) (c : Cursor) : Bool :=
  match c.next with
  | none => false
  | some x =>
    !(endsWord (some x) || "-?:,[]\x7b\x7d#&*!|>'\"%@\x60".toList.contains x) ||
      (x == '-' && !(c.peek 1).any isBlank) ||
      (!flow && (x == '?' || x == ':') && !endsWord (c.peek 1))

/-- Reads the token that starts at the cursor. -/
def token? (l : Lexing) : Option Lexing :=
  let c := l.cursor
  match c.next with
  | none => l.finish?
  | some x =>
    if c.column == 0 && x == '%' then l.directive?
    else if c.atDocumentMark then
      l.documentMark? (if x == '-' then .documentStart else .documentEnd)
    else if x == '[' then l.openFlow? .flowSequenceStart
    else if x == '\x7b' then l.openFlow? .flowMappingStart
    else if x == ']' then l.closeFlow? .flowSequenceEnd
    else if x == '\x7d' then l.closeFlow? .flowMappingEnd
    else if x == ',' then l.flowEntry?
    else if x == '-' && endsWord (c.peek 1) then l.blockEntry?
    else if x == '?' && (l.inFlow || endsWord (c.peek 1)) then l.explicitKey?
    else if x == ':' && (l.inFlow || endsWord (c.peek 1)) then l.value?
    else if x == '*' then l.anchor? .alias
    else if x == '&' then l.anchor? .anchor
    else if x == '!' then l.tag?
    else if x == '|' && !l.inFlow then l.blockScalar? true
    else if x == '>' && !l.inFlow then l.blockScalar? false
    else if x == '\'' then l.quotedScalar? true
    else if x == '"' then l.quotedScalar? false
    else if startsPlain l.inFlow c then l.plainScalar?
    else none

/-- The tokens before the first one of which it is open whether it is a key, in reverse. -/
def settled (l : Lexing) : List Token := l.tokens.drop (l.count - l.firstOpen)

/-- Reads all tokens, in reverse; with an error, those that are known before it. -/
def run : Nat → Lexing → List Token
  | 0, l => l.settled
  | fuel + 1, l =>
    let l := skipSpace (l.cursor.rest.length + 1) l
    match l.dropStale? with
    | none => l.settled
    | some l =>
      match (l.closeTo l.cursor.column).token? with
      | none => l.settled
      | some l => if l.ended then l.tokens else run fuel l

end Lexing

/-- Cuts a text into tokens.  They end in `Token.streamEnd` if and only if the whole text could
be read. -/
def Token.ofText (text : String) : List Token :=
  let cs := text.toList
  if cs.all isAllowed then (Lexing.run (cs.length + 2) (.ofText cs)).reverse else []

end Promptwright.Yaml
