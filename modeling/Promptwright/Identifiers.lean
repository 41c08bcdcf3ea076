import Promptwright.Text.Blank

/-! # Identifiers from labels

A label is any text that people give to a prompt or a tool.  `Identifiers.ofLabel` spells it in
four ways that programs and file systems accept.  Only ASCII letters, digits and white space of
the label count.  Its words end at white space and at humps: `lookupWeather` is two words, and so
is `HTTPServer`.  The file slug is split at white space alone. -/

namespace Promptwright

/-- The spellings of a label. -/
structure Identifiers where
  /-- As in `simplePrompt`. -/
  camel : String
  /-- As in `SimplePrompt`. -/
  pascal : String
  /-- As in `simple_prompt`. -/
  snake : String
  /-- As in `simple_prompt`, without regard to humps. -/
  fileSlug : String
deriving DecidableEq, Repr

namespace Identifiers

/-! ## Words -/

/-- Whether a new word starts at `c`, which follows `before` and is followed by `after`. -/
def isHump (before c : Char) (after : Option Char) : Bool :=
  c.isUpper &&
    (before.isLower || before.isDigit || (before.isUpper && after.any Char.isLower))

/-- The words of a text without white space. -/
def humps : List Char → List (List Char)
  | [] => []
  | [c] => [[c]]
  | b :: c :: cs =>
    if isHump b c cs.head? then [b] :: humps (c :: cs)
    else Text.consHead b (humps (c :: cs))

/-- The characters of a label that count. -/
def keep (label : List Char) : List Char :=
  label.filter fun c => c.isAlphanum || Text.isBlank c

/-- The parts of a label between white space. -/
def chunks (label : List Char) : List (List Char) := Text.words (keep label)

/-- A word in lower case. -/
def lower (w : List Char) : List Char := w.map Char.toLower

/-- A word with its first letter in upper case. -/
def upperFirst : List Char → List Char
  | [] => []
  | c :: cs => c.toUpper :: cs

/-- The words of a label, in lower case. -/
def words (label : List Char) : List (List Char) :=
  ((chunks label).flatMap humps).map lower

/-! ## Spellings -/

/-- Words as one, with an upper-case letter where a word starts, the first one apart. -/
def camelOf : List (List Char) → List Char
  | [] => []
  | w :: ws => w ++ (ws.map upperFirst).flatten

/-- Words joined by underscores. -/
def snakeOf (ws : List (List Char)) : List Char := ['_'].intercalate ws

/-- The spellings of a label. -/
def ofLabel (label : String) : Identifiers :=
  let ws := words label.toList
  { camel := String.ofList (camelOf ws)
    pascal := String.ofList (upperFirst (camelOf ws))
    snake := String.ofList (snakeOf ws)
    fileSlug := String.ofList (snakeOf ((chunks label.toList).map lower)) }

/-- A space for each dash and underscore. -/
def dashesToSpaces (cs : List Char) : List Char :=
  cs.map fun c => if c = '-' ∨ c = '_' then ' ' else c

/-- The spellings of a label for use in programs, where dashes and underscores end words too. -/
def forBinding (label : String) : Identifiers :=
  ofLabel (String.ofList (dashesToSpaces label.toList))

end Identifiers

end Promptwright
