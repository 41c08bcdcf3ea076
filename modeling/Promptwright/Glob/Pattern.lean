import Promptwright.Text.Split

/-! # Glob patterns

In a glob pattern `?` stands for one character, `*` for any text, and a class in brackets for one
of its characters or, after `[!`, for any other.  `**` as a whole part of a path stands for any
number of directories.

`Pattern.parse` splits a pattern into items and refuses what makes no sense; `Pattern.matches`
tells whether items match a name. -/

namespace Promptwright.Glob

/-- What is wrong with a pattern. -/
inductive Fault
  | tooManyStars
  | starsInName
  | unclosedClass
deriving DecidableEq, Repr

/-- The wording of a fault. -/
def Fault.message : Fault → String
  | .tooManyStars => "wildcards are either regular \x60*\x60 or recursive \x60**\x60"
  | .starsInName => "recursive wildcards must form a single path component"
  | .unclosedClass => "invalid range pattern"

/-- A fault and the number of characters before it. -/
structure PatternError where
  position : Nat
  fault : Fault
deriving DecidableEq, Repr

/-- The error in words. -/
def PatternError.message (e : PatternError) : String :=
  "Pattern syntax error near position " ++ toString e.position ++ ": " ++ e.fault.message

/-- A range of characters; a single one is the range from itself to itself. -/
structure CharRange where
  low : Char
  high : Char
deriving DecidableEq, Repr

/-- Whether a character is in one of some ranges. -/
def inRanges (rs : List CharRange) (c : Char) : Bool := rs.any fun r => r.low ≤ c && c ≤ r.high

/-- A part of a pattern. -/
inductive Item
  | char (c : Char)
  | anyChar
  | anyText
  | oneOf (ranges : List CharRange)
  | noneOf (ranges : List CharRange)
  /-- Any number of directories. -/
  | directories
deriving DecidableEq, Repr

/-- A pattern as items. -/
abbrev Pattern := List Item

namespace Pattern

/-- The ranges of a class: a dash between two characters makes a range, and any other character
stands for itself. -/
def ranges : List Char → List CharRange
  | a :: '-' :: b :: cs => ⟨a, b⟩ :: ranges cs
  | c :: cs => ⟨c, c⟩ :: ranges cs
  | [] => []

/-- Reads a class after its opening bracket: the item, the number of characters read, and the
rest.  The first character of a class is never its end. -/
def takeClass? : List Char → Option (Item × Nat × List Char)
  | '!' :: c :: cs => do
    let (inner, rest) ← Text.cutAt? ']' cs
    return (.noneOf (ranges (c :: inner)), inner.length + 3, rest)
  | '!' :: [] => none
  | c :: cs => do
    let (inner, rest) ← Text.cutAt? ']' cs
    return (.oneOf (ranges (c :: inner)), inner.length + 2, rest)
  | [] => none

/-- Reads the items of a pattern at a position.  `fresh` tells whether a part of a path starts
here.  The rest gets shorter with every item, so its length bounds the number of steps. -/
def parseFrom : Nat → Nat → Bool → List Char → Except PatternError Pattern
  | 0, _, _, _ => .ok []
  | fuel + 1, position, fresh, cs =>
    match cs with
    | [] => .ok []
    | '?' :: cs => do return .anyChar :: (← parseFrom fuel (position + 1) false cs)
    | '*' :: '*' :: '*' :: _ => .error ⟨position + 2, .tooManyStars⟩
    | '*' :: '*' :: cs =>
      if !fresh then .error ⟨position - 1, .starsInName⟩
      else
        match cs with
        | [] => .ok [.directories]
        | '/' :: cs => do return .directories :: (← parseFrom fuel (position + 3) true cs)
        | _ => .error ⟨position + 2, .starsInName⟩
    | '*' :: cs => do return .anyText :: (← parseFrom fuel (position + 1) false cs)
    | '[' :: cs =>
      match takeClass? cs with
      | none => .error ⟨position, .unclosedClass⟩
      | some (item, n, rest) => do
        return item :: (← parseFrom fuel (position + 1 + n) false rest)
    | c :: cs => do return .char c :: (← parseFrom fuel (position + 1) (c == '/') cs)

/-- The items of a pattern. -/
def parse (s : String) : Except PatternError Pattern := parseFrom s.length 0 true s.toList

/-- The text of a pattern without wildcards. -/
def literal? : Pattern → Option (List Char)
  | [] => some []
  | .char c :: is => (literal? is).map (c :: ·)
  | _ :: _ => none

/-- Whether a pattern stands for directories at any depth. -/
def isRecursive (p : Pattern) : Bool := p.contains .directories

/-- What is left of a text when any number of characters is taken off its front. -/
def endings : List Char → List (List Char)
  | [] => [[]]
  | c :: cs => (c :: cs) :: endings cs

/-- Whether a pattern matches the whole of a name. -/
def matchesName : Pattern → List Char → Bool
  | [], cs => cs.isEmpty
  | .char c :: is, d :: cs => c == d && matchesName is cs
  | .anyChar :: is, _ :: cs => matchesName is cs
  | .oneOf rs :: is, c :: cs => inRanges rs c && matchesName is cs
  | .noneOf rs :: is, c :: cs => !inRanges rs c && matchesName is cs
  | .anyText :: is, cs => (endings cs).any (matchesName is)
  | .directories :: is, cs => (endings cs).any (matchesName is)
  | _ :: _, [] => false

end Pattern

end Promptwright.Glob
