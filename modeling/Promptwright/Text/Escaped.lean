import Promptwright.Text.Lowercase
import Promptwright.Text.PrintTable

/-! # Texts in messages

A text that a message quotes stands between quotes, with everything escaped that would not
show: controls, characters without a shape and those that attach to the one before them. -/

namespace Promptwright.Text

/-- The hexadecimal digits of a number, in lower case and without leading zeros. -/
def hexDigits (n : Nat) : List Char := Nat.toDigits 16 n

/-- A character as it shows in an escaped text. -/
def escapedChar (c : Char) : List Char :=
  if c = '\x00' then ['\\', '0']
  else if c = '\t' then ['\\', 't']
  else if c = '\r' then ['\\', 'r']
  else if c = '\n' then ['\\', 'n']
  else if c = '"' then ['\\', '"']
  else if c = '\\' then ['\\', '\\']
  else if 0x20 ≤ c.toNat && c.toNat < 0x7f then [c]
  else if inRanges graphemeExtendRanges c.toNat || inRanges unprintableRanges c.toNat then
    '\\' :: 'u' :: '{' :: hexDigits c.toNat ++ ['}']
  else [c]

/-- A text between quotes, escaped. -/
def escaped (s : String) : String :=
  "\"" ++ String.ofList (s.toList.flatMap escapedChar) ++ "\""

end Promptwright.Text
