import Promptwright.Script.Token
import Promptwright.Text.Blank

/-! # Formatting scripts

`Script.format` lays out a script anew.  Every line is indented by the brackets that are open
where it starts, runs of blank lines shrink to one, blank lines around the ends of a block
vanish, and string literals get double quotes where that takes no escape.  The text of template
literals stays as it is.

A script whose brackets do not match, or whose literals or comments do not end, is refused. -/

namespace Promptwright.Script

/-- An open bracket and the line that it stands on. -/
structure Open where
  bracket : Bracket
  line : Nat
deriving DecidableEq, Repr

/-- Why a script is refused. -/
inductive Fault
  | unclosedLiteral
  | unmatched (found : Bracket)
  | mismatch (found : Bracket) (still : Open)
  | unclosedComment
  | unclosedTemplate
  | unclosedBracket (still : Open)
deriving DecidableEq, Repr

/-- The fault in words. -/
def Fault.message : Fault → String
  | .unclosedLiteral => "unterminated string literal"
  | .unmatched b => "unmatched '" ++ String.ofList [b.closing] ++ "'"
  | .mismatch b o =>
    "found '" ++ String.ofList [b.closing] ++ "' but '" ++ String.ofList [o.bracket.opening] ++
      "' from line " ++ toString o.line ++ " is still open"
  | .unclosedComment => "unterminated block comment"
  | .unclosedTemplate => "unterminated template literal"
  | .unclosedBracket o =>
    "unclosed '" ++ String.ofList [o.bracket.opening] ++ "' opened on line " ++ toString o.line

/-- A fault and the line where it was noticed, counted from one. -/
structure FormatError where
  line : Nat
  fault : Fault
deriving DecidableEq, Repr

/-- The error in words. -/
def FormatError.message (e : FormatError) : String :=
  "line " ++ toString e.line ++ ": " ++ e.fault.message

/-! ## Brackets -/

/-- The open brackets, the innermost first, after a token of a line. -/
def step (line : Nat) (stack : List Open) (t : Token) : Except Fault (List Open) :=
  match t, stack with
  | .opening b, stack => .ok (⟨b, line⟩ :: stack)
  | .closing b, [] => .error (.unmatched b)
  | .closing b, o :: stack => if o.bracket = b then .ok stack else .error (.mismatch b o)
  | .unclosed .., _ => .error .unclosedLiteral
  | _, stack => .ok stack

/-- The number of levels of indentation: brackets that were opened on one line count once. -/
def depth : List Open → Nat
  | [] => 0
  | [_] => 1
  | o :: p :: stack => depth (p :: stack) + (if o.line = p.line then 0 else 1)

/-- The number of closing brackets that a line starts with. -/
def leadingClosers : List Token → Nat
  | .closing _ :: ts => leadingClosers ts + 1
  | .char c :: ts => if Text.isBlank c then leadingClosers ts else 0
  | _ => 0

/-! ## Literals -/

/-- The text with a bare apostrophe for each escaped one. -/
def unescapeApostrophes : List Char → List Char
  | '\\' :: '\'' :: cs => '\'' :: unescapeApostrophes cs
  | c :: cs => c :: unescapeApostrophes cs
  | [] => []

/-- A token as it is written: single quotes become double ones if there is no double quote
between them. -/
def normalize : Token → Token
  | .literal true body =>
    if body.contains '"' then .literal true body else .literal false (unescapeApostrophes body)
  | t => t

/-- Tokens as they are written. -/
def render (ts : List Token) : List Char := ts.flatMap fun t => (normalize t).text

/-! ## Lines -/

/-- What is known between two lines. -/
structure Layout where
  mode : Mode := .code
  stack : List Open := []
  /-- Whether a blank line was left out just before. -/
  blank : Bool := false
  /-- The last character written that is not white space. -/
  last : Option Char := none

/-- The last character of a text that is not white space, or else a given one. -/
def lastMark (cs : List Char) (last : Option Char) : Option Char :=
  match (Text.trimEnd cs).getLast? with
  | some c => some c
  | none => last

/-- Whether a line starts with a closing bracket. -/
def startsWithCloser (line : List Char) : Bool := (line.head?.bind Bracket.ofClosing?).isSome

/-- Whether the last mark is an opening bracket. -/
def Layout.afterOpener (l : Layout) : Bool := (l.last.bind Bracket.ofOpening?).isSome

/-- The white space before a line. -/
def indentation (width : Nat) (l : Layout) (ts : List Token) : List Char :=
  let stack := if l.mode = .code then l.stack.drop (leadingClosers ts) else l.stack
  let star := l.mode = .comment && (render ts).head? == some '*'
  List.replicate (depth stack * width) ' ' ++ (if star then [' '] else [])

/-- The lines written for a line, and what is known after it. -/
def formatLine (width number : Nat) (l : Layout) (raw : List Char) :
    Except Fault (List (List Char) × Layout) :=
  if l.mode = .template then do
    let (ts, mode) := lex .template raw
    let stack ← ts.foldlM (step number) l.stack
    let line := Text.trimEnd raw
    return ([line], { l with mode, stack, last := lastMark line l.last })
  else
    let line := Text.trim raw
    if line.isEmpty then .ok ([], { l with blank := l.last.isSome })
    else do
      let (ts, mode) := lex l.mode line
      let stack ← ts.foldlM (step number) l.stack
      let written := indentation width l ts ++ render ts
      let gap := l.blank && !startsWithCloser line && !l.afterOpener
      return ((if gap then [[], written] else [written]),
        { mode, stack, blank := false, last := lastMark written l.last })

/-- The lines written for some lines, the first of which has a given number, the layout after
them, and the number of the last one. -/
def formatLines (width : Nat) : Nat → Layout → List (List Char) →
    Except FormatError (List (List Char) × Layout × Nat)
  | number, l, [] => .ok ([], l, number - 1)
  | number, l, raw :: rest =>
    match formatLine width number l raw with
    | .error fault => .error ⟨number, fault⟩
    | .ok (written, l) => do
      let (more, l, last) ← formatLines width (number + 1) l rest
      return (written ++ more, l, last)

/-- Refuses a script that ends inside something. -/
def Layout.finish (l : Layout) : Except Fault Unit :=
  match l.mode, l.stack with
  | .comment, _ => .error .unclosedComment
  | .template, _ => .error .unclosedTemplate
  | .code, o :: _ => .error (.unclosedBracket o)
  | .code, [] => .ok ()

/-- A text of lines, each with its end. -/
def unlines (ls : List (List Char)) : List Char := ls.flatMap fun l => l ++ ['\n']

/-- The characters of a script laid out anew, with a given number of spaces for each level. -/
def formatChars (width : Nat) (source : List Char) : Except FormatError (List Char) := do
  let (written, l, last) ← formatLines width 1 {} (Text.lines source)
  match l.finish with
  | .ok () => return unlines written
  | .error fault => .error ⟨last, fault⟩

/-- A script laid out anew, with a given number of spaces for each level. -/
def format (width : Nat) (source : String) : Except FormatError String :=
  (formatChars width source.toList).map String.ofList

end Promptwright.Script
