import Promptwright.Json.Value

/-! # Validators

A `Validator` is an expression of the validator library that generated modules use: it describes
which values are accepted.  It is a tree; how it is written is another matter, see
`Validator.source`. -/

namespace Promptwright

namespace Validator

/-- Why a validator accepts anything for lack of better knowledge. -/
inductive Gap
  | noType
  | unknownType (name : String)
  | emptyTypes
  | emptyUnion
  | emptyIntersection
deriving DecidableEq, Repr

/-- The formats of texts that can be checked. -/
inductive TextFormat
  | email
  | url
  | uuid
  | dateTime
deriving DecidableEq, Repr

/-- A condition on a text. -/
inductive TextCheck
  | minLength (n : Json.Number)
  | maxLength (n : Json.Number)
  | pattern (regex : String)
  | format (f : TextFormat)
deriving DecidableEq, Repr

/-- How a number has to relate to a bound. -/
inductive Relation
  | greater
  | atLeast
  | less
  | atMost
  | multipleOf
deriving DecidableEq, Repr

/-- A condition on a number. -/
structure NumberCheck where
  relation : Relation
  bound : Json.Number
deriving DecidableEq, Repr

/-- A condition on the number of items. -/
inductive SizeCheck
  | min (n : Json.Number)
  | max (n : Json.Number)
deriving DecidableEq, Repr

/-- A property of an object: its name, whether it must be there, and its value. -/
structure Property (α : Type) where
  name : String
  required : Bool
  value : α

/-- What else an object may hold. -/
inductive Rest (α : Type)
  /-- Anything. -/
  | free
  /-- Nothing. -/
  | nothing
  /-- Values of a kind. -/
  | each (v : α)

end Validator

open Validator in
/-- A description of values. -/
inductive Validator
  | any
  | never
  /-- Anything, since nothing is known. -/
  | unknown (gap : Gap)
  | text (checks : List TextCheck)
  | number (whole : Bool) (checks : List NumberCheck)
  | boolean
  | null
  /-- One value without parts. -/
  | literal (value : Json)
  /-- One of several texts. -/
  | choice (values : List String)
  | union (members : List Validator)
  | intersection (left right : Validator)
  | array (item : Validator) (checks : List SizeCheck)
  | tuple (items : List Validator) (checks : List SizeCheck)
  | object (properties : List (Property Validator)) (rest : Rest Validator)
  | nullable (v : Validator)
  | described (v : Validator) (description : String)

instance : Inhabited Validator := ⟨.any⟩

end Promptwright
