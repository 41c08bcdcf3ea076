import Promptwright.Text.CaseTable

/-! # Lower case

The lower case of a text, for all of Unicode.  Three rules go beyond a table of characters: a
capital sigma becomes a final sigma at the end of a word, a capital dotted I becomes two
characters, and everything else is mapped on its own. -/

namespace Promptwright.Text

/-- Whether a number lies in one of the ranges of a table. -/
def inRanges (ranges : List (Nat × Nat)) (n : Nat) : Bool :=
  ranges.any fun (first, last) => first ≤ n && n ≤ last

/-- The mapping of a single character. -/
def lowercaseChar (c : Char) : Char :=
  let n := c.toNat
  let range := lowercaseRanges.find? fun (first, last, step, _) =>
    first ≤ n && n ≤ last && (n - first) % step == 0
  match range with
  | some (_, _, _, delta) => Char.ofNat (n + delta).toNat
  | none => c

/-- Whether the first character of a text that is not ignored for case is a cased one. -/
def meetsCased (s : List Char) : Bool :=
  match s.find? fun c => !inRanges caseIgnorableRanges c.toNat with
  | some c => inRanges casedRanges c.toNat
  | none => false

/-- The lower case of a text; `before` holds what stands in front of it, in reverse. -/
def lowercaseAfter (before : List Char) : List Char → List Char
  | [] => []
  | c :: cs =>
    let out :=
      if c = 'Σ' then (if meetsCased before && !meetsCased cs then ['ς'] else ['σ'])
      else if c = 'İ' then ['i', '\u0307']
      else [lowercaseChar c]
    out ++ lowercaseAfter (c :: before) cs

/-- The lower case of a text. -/
def lowercase (s : List Char) : List Char := lowercaseAfter [] s

end Promptwright.Text
