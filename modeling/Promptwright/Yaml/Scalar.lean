import Promptwright.Document.Node

/-! # What YAML scalars mean

A plain scalar without a tag means the first of these that its text fits: null, a boolean, a
whole number, a floating number, and else a text (`Scalar.plainAtom`).  Digits after a leading
zero make no number.  The four tags `!!bool`, `!!int`, `!!float` and `!!null` ask for one of
them and are wrong if the text does not fit (`Scalar.atom?`). -/

namespace Promptwright.Scalar

/-! ## Texts as values -/

/-- The four spellings of null.  The empty text is null too, where it stands plain. -/
def isNullWord (s : String) : Bool := s == "null" || s == "Null" || s == "NULL" || s == "~"

/-- The text as a boolean. -/
def bool? (s : String) : Option Bool :=
  if s = "true" ∨ s = "True" ∨ s = "TRUE" then some true
  else if s = "false" ∨ s = "False" ∨ s = "FALSE" then some false
  else none

/-- The value of a digit in a base up to sixteen. -/
def digitValue? (base : Nat) (c : Char) : Option Nat :=
  let n :=
    if '0' ≤ c ∧ c ≤ '9' then c.toNat - '0'.toNat
    else if 'a' ≤ c ∧ c ≤ 'f' then c.toNat - 'a'.toNat + 10
    else if 'A' ≤ c ∧ c ≤ 'F' then c.toNat - 'A'.toNat + 10
    else base
  if n < base then some n else none

/-- The value of a text that consists of digits, at least one. -/
def digits? (base : Nat) (cs : List Char) : Option Nat :=
  if cs.isEmpty then none
  else cs.foldl (fun n c => do return (← n) * base + (← digitValue? base c)) (some 0)

/-- Several digits of which the first is a zero: a text, and no number. -/
def isZeroPadded (cs : List Char) : Bool :=
  let cs := match cs with
    | '-' :: cs => cs
    | '+' :: cs => cs
    | cs => cs
  match cs with
  | '0' :: c :: cs => (c :: cs).all Char.isDigit
  | _ => false

/-- Whether a text starts with a sign. -/
def startsWithSign : List Char → Bool
  | '-' :: _ => true
  | '+' :: _ => true
  | _ => false

/-- Takes a plus sign off the front; a second sign after it is no number. -/
def dropPlus? : List Char → Option (List Char)
  | '+' :: cs => if startsWithSign cs then none else some cs
  | cs => some cs

/-- The digits of a number without a sign, in the base that `0x`, `0o` or `0b` announces. -/
def magnitude? : List Char → Option Nat
  | '0' :: 'x' :: cs => digits? 16 cs
  | '0' :: 'o' :: cs => digits? 8 cs
  | '0' :: 'b' :: cs => digits? 2 cs
  | cs => if isZeroPadded cs then none else digits? 10 cs

/-- The text as a whole number of any size: an optional sign, an optional base, and digits. -/
def integer? (s : String) : Option Int :=
  match s.toList with
  | '-' :: cs => (magnitude? cs).map fun n => -(n : Int)
  | cs => do
    let n ← magnitude? (← dropPlus? cs)
    return n

/-- The text as a floating number: one of the words for infinity and "not a number", or a
numeral that does not overflow. -/
def float? (s : String) : Option Binary64 :=
  match dropPlus? s.toList with
  | none => none
  | some cs =>
    let unsigned := String.ofList cs
    if unsigned = ".inf" ∨ unsigned = ".Inf" ∨ unsigned = ".INF" then some (.infinite false)
    else if s = "-.inf" ∨ s = "-.Inf" ∨ s = "-.INF" then some (.infinite true)
    else if s = ".nan" ∨ s = ".NaN" ∨ s = ".NAN" then some .nan
    else (Binary64.parse? cs).filter Binary64.isFinite

/-! ## Scalars as values -/

/-- The bound `2 ^ 127` of whole numbers of 128 bits with a sign. -/
def wideBound : Nat := 170141183460469231731687303715884105728

/-- A whole number as an atom; beyond 128 bits there is none. -/
def integerAtom? (n : Int) : Option Atom :=
  if -Json.Number.signedBound ≤ n ∧ n ≤ Json.Number.maxInteger then some (.integer n)
  else if -wideBound ≤ n ∧ n < 2 * wideBound then some (.wide n)
  else none

/-- What a plain text without a tag means. -/
def plainAtom (s : String) : Atom :=
  if s.isEmpty || isNullWord s then .null
  else
    match bool? s with
    | some b => .bool b
    | none =>
      match (integer? s).bind integerAtom? with
      | some a => a
      | none =>
        if isZeroPadded s.toList then .string s
        else
          match float? s with
          | some x => .float x
          | none => .string s

/-- The tag `!!bool`. -/
def boolTag : String := "tag:yaml.org,2002:bool"

/-- The tag `!!int`. -/
def intTag : String := "tag:yaml.org,2002:int"

/-- The tag `!!float`. -/
def floatTag : String := "tag:yaml.org,2002:float"

/-- The tag `!!null`. -/
def nullTag : String := "tag:yaml.org,2002:null"

/-- Whether a tag is one of the document's own, such as `!point`. -/
def isLocalTag (tag : Option String) : Bool :=
  match tag with
  | some t => t.toList.head? == some '!'
  | none => false

/-- What a scalar means, or what its tag asks for when the text does not fit. -/
def atom? (s : Scalar) : Except String Atom :=
  match s.tag with
  | none => .ok (if s.style = .plain then plainAtom s.text else .string s.text)
  | some t =>
    if t = boolTag then
      match bool? s.text with
      | some b => .ok (.bool b)
      | none => .error "a boolean"
    else if t = intTag then
      match (integer? s.text).bind integerAtom? with
      | some a => .ok a
      | none => .error "an integer"
    else if t = floatTag then
      match float? s.text with
      | some x => .ok (.float x)
      | none => .error "a float"
    else if t = nullTag then
      if isNullWord s.text then .ok .null else .error "null"
    else if isLocalTag s.tag && s.style = .plain then .ok (plainAtom s.text)
    else .ok (.string s.text)

/-- Nothing at all, written where a value is expected. -/
def isEmptyPlain (s : Scalar) : Bool := s.style = .plain && s.text.isEmpty

/-- Whether the scalar may be read as the kind of value that a tag names: it is plain, or a
literal block with that very tag. -/
def admits (s : Scalar) (tag : String) : Bool :=
  s.style = .plain || (s.style = .literal && s.tag == some tag)

end Promptwright.Scalar
