/-! # String literals of scripts

`Script.quote` writes a text as a literal between double quotes.  The quote, the backslash and
all characters that could end a line or a literal are escaped, so that the literal stands on one
line. -/

namespace Promptwright.Script

/-- The four hexadecimal digits of a code unit, in lower case. -/
def hex4 (n : Nat) : List Char :=
  [Nat.digitChar (n / 4096 % 16), Nat.digitChar (n / 256 % 16), Nat.digitChar (n / 16 % 16),
    Nat.digitChar (n % 16)]

/-- A character as it stands in a literal. -/
def escapeChar (c : Char) : List Char :=
  if c = '\\' then ['\\', '\\']
  else if c = '"' then ['\\', '"']
  else if c = '\n' then ['\\', 'n']
  else if c = '\r' then ['\\', 'r']
  else if c = '\t' then ['\\', 't']
  else if c.toNat = 0x2028 ∨ c.toNat = 0x2029 ∨ c.toNat < 0x20 then '\\' :: 'u' :: hex4 c.toNat
  else [c]

/-- The characters of a literal, quotes included. -/
def quoteChars (cs : List Char) : List Char := '"' :: cs.flatMap escapeChar ++ ['"']

/-- A text as a literal. -/
def quote (s : String) : String := String.ofList (quoteChars s.toList)

end Promptwright.Script
