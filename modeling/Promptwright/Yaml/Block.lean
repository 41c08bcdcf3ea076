import Promptwright.Yaml.Cursor

/-! # Block scalars

A block scalar starts with `|` or `>` and a header, and goes on as long as its lines are
indented.  After `|` its line breaks stand for themselves; after `>` a single line break between
two lines that start with no blank stands for a space. -/

namespace Promptwright.Yaml.Block

/-- What becomes of the line breaks at the end of a block scalar. -/
inductive Chomping
  | strip
  | clip
  | keep
deriving DecidableEq, Repr

/-- A block scalar as far as it has been read; all lists are in reverse. -/
structure State where
  text : List Char
  /-- The break of the line read last. -/
  leading : List Char
  /-- The breaks of empty lines after it. -/
  trailing : List Char
  /-- Whether the line read last started with a blank. -/
  leadingBlank : Bool
deriving Repr

/-- Reads the chomping indicator. -/
def chomping? (c : Cursor) : Option (Chomping × Cursor) :=
  if c.stands '+' then some (.keep, c.advance 1)
  else if c.stands '-' then some (.strip, c.advance 1)
  else none

/-- Reads the indentation indicator, a digit other than zero; zero stands for "none given". -/
def increment? (c : Cursor) : Option (Nat × Cursor) :=
  match c.next with
  | none => some (0, c)
  | some x =>
    if !x.isDigit then some (0, c)
    else if x = '0' then none
    else some (x.toNat - '0'.toNat, c.advance 1)

/-- Reads the header: the two indicators in either order, blanks, a comment, and the end of the
line. -/
def header? (c : Cursor) : Option (Chomping × Nat × Cursor) := do
  let (chomping, increment, c) ← match chomping? c with
    | some (chomping, c) => do
      let (n, c) ← increment? c
      pure (chomping, n, c)
    | none => do
      let (n, c) ← increment? c
      match if n = 0 then none else chomping? c with
      | some (chomping, c) => pure (chomping, n, c)
      | none => pure (Chomping.clip, n, c)
  let c := c.skipWhile isBlank
  let c := if c.stands '#' then c.skipLine else c
  if endsLine c.next then return (chomping, increment, c.skipBreak) else none

/-- Skips indentation and empty lines, whose breaks are added to `breaks`, and finds the greatest
column reached.  As long as no `indent` is known, all spaces are indentation. -/
def skipEmptyLines? (indent : Option Nat) :
    Nat → Cursor → List Char → Nat → Option (Cursor × List Char × Nat)
  | 0, c, breaks, deepest => some (c, breaks, deepest)
  | fuel + 1, c, breaks, deepest =>
    let inside (c : Cursor) : Bool := indent.all fun n => c.column < n
    let room := match indent with
      | none => c.rest.length
      | some n => n - c.column
    let spaces := ((c.rest.take room).takeWhile (· == ' ')).length
    let c := c.advance spaces
    let deepest := max deepest c.column
    if inside c && c.stands '\t' then none
    else if c.next.any isBreak then
      let (br, c) := c.takeBreak
      skipEmptyLines? indent fuel c (br ++ breaks) deepest
    else some (c, breaks, deepest)

/-- Reads the lines of a block scalar that is indented to the column `indent`. -/
def takeLines? (isLiteral : Bool) (indent : Nat) : Nat → Cursor → State → Option (Cursor × State)
  | 0, c, s => some (c, s)
  | fuel + 1, c, s =>
    if c.column ≠ indent ∨ c.next.isNone then some (c, s)
    else
      let blank := c.next.any isBlank
      let joined := !isLiteral && s.leading.getLast? == some '\n' && !s.leadingBlank && !blank
      let lead := if joined then (if s.trailing.isEmpty then [' '] else []) else s.leading
      let (line, c) := c.takeWhile fun x => !isBreak x
      let text := line.reverse ++ (s.trailing ++ (lead ++ s.text))
      let (br, c) := c.takeBreak
      match skipEmptyLines? (some indent) fuel c [] 0 with
      | none => none
      | some (c, breaks, _) =>
        takeLines? isLiteral indent fuel c ⟨text, br.reverse, breaks, blank⟩

/-- Reads a block scalar after its indicator, in a block that is indented to `parent`. -/
def take? (isLiteral : Bool) (parent : Int) (fuel : Nat) (c : Cursor) :
    Option (Cursor × List Char) := do
  let (chomping, increment, c) ← header? c
  let known := if increment = 0 then none else some (parent.toNat + increment)
  let (c, breaks, deepest) ← skipEmptyLines? known fuel c [] 0
  let indent := known.getD (max (max deepest (parent + 1).toNat) 1)
  let (c, s) ← takeLines? isLiteral indent fuel c ⟨[], [], breaks, false⟩
  let ending := match chomping with
    | .strip => []
    | .clip => s.leading
    | .keep => s.trailing ++ s.leading
  return (c, (ending ++ s.text).reverse)

end Promptwright.Yaml.Block
