/-! # Tokens of a line of script

`Script.lex` splits a line of JavaScript or TypeScript into tokens, as far as layout is concerned:
brackets, string literals, comments, template literals, and other characters.  Comments and
template literals may go on in the next line, so lexing starts in a `Mode` and ends in one.
String literals may not.

`Token.text` gives back what a token was read from. -/

namespace Promptwright.Script

/-- The kinds of brackets. -/
inductive Bracket
  | round
  | square
  | curly
deriving DecidableEq, Repr

namespace Bracket

/-- The opening bracket. -/
def opening : Bracket → Char
  | .round => '('
  | .square => '['
  | .curly => '{'

/-- The closing bracket. -/
def closing : Bracket → Char
  | .round => ')'
  | .square => ']'
  | .curly => '}'

/-- The kind of bracket that a character opens. -/
def ofOpening? (c : Char) : Option Bracket :=
  if c = '(' then some .round else if c = '[' then some .square
  else if c = '{' then some .curly else none

/-- The kind of bracket that a character closes. -/
def ofClosing? (c : Char) : Option Bracket :=
  if c = ')' then some .round else if c = ']' then some .square
  else if c = '}' then some .curly else none

end Bracket

/-- What a line starts or ends in. -/
inductive Mode
  | code
  | comment
  | template
deriving DecidableEq, Repr

/-- A token.  The text of a comment or a template literal comes in pieces. -/
inductive Token
  | char (c : Char)
  | opening (b : Bracket)
  | closing (b : Bracket)
  /-- A string literal: whether its quotes are single ones, and what is between them. -/
  | literal (single : Bool) (body : List Char)
  /-- A string literal that does not end on its line. -/
  | unclosed (single : Bool) (body : List Char)
  | lineComment (text : List Char)
  | comment (text : List Char)
  | template (text : List Char)
deriving DecidableEq, Repr

/-- The quote of a literal. -/
def quoteChar (single : Bool) : Char := if single then '\'' else '"'

namespace Token

/-- The characters that a token was read from. -/
def text : Token → List Char
  | .char c => [c]
  | .opening b => [b.opening]
  | .closing b => [b.closing]
  | .literal single body => quoteChar single :: body ++ [quoteChar single]
  | .unclosed single body => quoteChar single :: body
  | .lineComment text => text
  | .comment text => text
  | .template text => text

end Token

/-- A token of code that is a single character. -/
def codeToken (c : Char) : Token :=
  match Bracket.ofOpening? c with
  | some b => .opening b
  | none =>
    match Bracket.ofClosing? c with
    | some b => .closing b
    | none => .char c

/-- Puts a token in front of what was lexed. -/
def push (t : Token) (r : List Token × Mode) : List Token × Mode := (t :: r.1, r.2)

mutual

/-- The tokens of a line, and the mode in which it ends. -/
def lex : Mode → List Char → List Token × Mode
  | mode, [] => ([], mode)
  | .comment, '*' :: '/' :: cs => push (.comment ['*', '/']) (lex .code cs)
  | .comment, c :: cs => push (.comment [c]) (lex .comment cs)
  | .template, '\\' :: c :: cs => push (.template ['\\', c]) (lex .template cs)
  | .template, '\x60' :: cs => push (.template ['\x60']) (lex .code cs)
  | .template, c :: cs => push (.template [c]) (lex .template cs)
  | .code, '/' :: '/' :: cs => ([.lineComment ('/' :: '/' :: cs)], .code)
  | .code, '/' :: '*' :: cs => push (.comment ['/', '*']) (lex .comment cs)
  | .code, '\'' :: cs => lexLiteral true [] cs
  | .code, '"' :: cs => lexLiteral false [] cs
  | .code, '\x60' :: cs => push (.template ['\x60']) (lex .template cs)
  | .code, c :: cs => push (codeToken c) (lex .code cs)
  termination_by structural _ cs => cs

/-- The tokens of a line that starts inside a string literal, after the characters in `done`, which
are in reverse.  A backslash takes the next character with it. -/
def lexLiteral (single : Bool) (done : List Char) : List Char → List Token × Mode
  | [] => ([.unclosed single done.reverse], .code)
  | '\\' :: c :: cs => lexLiteral single (c :: '\\' :: done) cs
  | c :: cs =>
    if c = quoteChar single then push (.literal single done.reverse) (lex .code cs)
    else lexLiteral single (c :: done) cs
  termination_by structural cs => cs

end

end Promptwright.Script
