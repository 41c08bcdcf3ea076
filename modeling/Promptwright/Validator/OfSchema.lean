import Promptwright.Validator.Basic

/-! # From schemas to validators

`Validator.ofSchema` turns a JSON Schema into a validator.  Of the keywords of a node only some
are read: the first of `const`, `enum`, `anyOf`, `oneOf`, `allOf` and `type` that is there
decides, and after it `nullable` and `description`.  A node that says too little accepts
everything.  A keyword that is read and has a value of the wrong kind is an error, which names
the place of the value.

The recursion follows the value: `ofJson` looks at a node, and `childrenOf` finds the readings of
the values below it that are schemas again.  `Node.validator` puts the pieces together. -/

namespace Promptwright

/-- A step from a value into a part of it. -/
inductive SchemaStep
  | key (name : String)
  | index (n : Nat)
deriving DecidableEq, Repr

/-- The way from a schema to a value in it. -/
abbrev SchemaPath := List SchemaStep

/-- A step in words. -/
def SchemaStep.text : SchemaStep → String
  | .key name => name
  | .index n => toString n

/-- The way in words. -/
def SchemaPath.text (path : SchemaPath) : String :=
  path.foldl (fun s step => s ++ "/" ++ step.text) "#"

/-- What is wrong with a value in a schema.  `found` is the kind of the value. -/
inductive SchemaFault
  | notSchema (found : String)
  | notType (found : String)
  | notTypeName (found : String)
  | notPattern
  | notItems (found : String)
  | notProperties (found : String)
  | notRequired (found : String)
  | notRequiredName (found : String)
  | notEnum (found : String)
  | notMembers (found : String)
  | notNumber (keyword found : String)
  | notLiteral (found : String)
deriving DecidableEq, Repr

/-- The fault in words. -/
def SchemaFault.message : SchemaFault → String
  | .notSchema found => "expected a schema object, found " ++ found
  | .notType found => "\"type\" must be a string or a list of strings, found " ++ found
  | .notTypeName found => "type names must be strings, found " ++ found
  | .notPattern => "\"pattern\" must be a string"
  | .notItems found => "\"items\" must be a schema or a list of schemas, found " ++ found
  | .notProperties found => "\"properties\" must be a map, found " ++ found
  | .notRequired found => "\"required\" must be a list, found " ++ found
  | .notRequiredName found => "required property names must be strings, found " ++ found
  | .notEnum found => "\"enum\" must be a list, found " ++ found
  | .notMembers found => "expected a list of schemas, found " ++ found
  | .notNumber keyword found => "\"" ++ keyword ++ "\" must be a number, found " ++ found
  | .notLiteral found => found ++ " cannot be used as a literal value"

/-- A fault and its place. -/
structure SchemaError where
  path : SchemaPath
  fault : SchemaFault
deriving DecidableEq, Repr

/-- The result of reading a part of a schema. -/
abbrev SchemaReading := Except SchemaError

namespace Validator

/-! ## Values without schemas in them -/

/-- The number of a keyword, if it is there. -/
def number? (path : SchemaPath) (ms : Json.Members) (keyword : String) :
    SchemaReading (Option Json.Number) :=
  match Json.Members.lookup ms keyword with
  | none => .ok none
  | some (.number n) => .ok (some n)
  | some j => .error ⟨path ++ [.key keyword], .notNumber keyword j.kind⟩

/-- The texts in a list, or the fault of the first item that is no text. -/
def texts (path : SchemaPath) (fault : String → SchemaFault) :
    Nat → List Json → SchemaReading (List String)
  | _, [] => .ok []
  | n, .string s :: js => do return s :: (← texts path fault (n + 1) js)
  | n, j :: _ => .error ⟨path ++ [.index n], fault j.kind⟩

/-- The names that `required` lists. -/
def requiredNames (path : SchemaPath) (ms : Json.Members) : SchemaReading (List String) :=
  match Json.Members.lookup ms "required" with
  | none => .ok []
  | some (.array js) => texts (path ++ [.key "required"]) .notRequiredName 0 js
  | some j => .error ⟨path ++ [.key "required"], .notRequired j.kind⟩

/-- Refuses lists and objects as literals. -/
def checkLiteral (path : SchemaPath) (j : Json) : SchemaReading Unit :=
  if j.isComposite then .error ⟨path, .notLiteral j.kind⟩ else .ok ()

/-- Refuses lists and objects among the items of a list. -/
def checkLiterals (path : SchemaPath) : Nat → List Json → SchemaReading Unit
  | _, [] => .ok ()
  | n, j :: js => do
    checkLiteral (path ++ [.index n]) j
    checkLiterals path (n + 1) js

/-- The value of `const`. -/
def ofConst (path : SchemaPath) (j : Json) : SchemaReading Validator := do
  checkLiteral (path ++ [.key "const"]) j
  return .literal j

/-- The validator for one of some values. -/
def ofValues (js : List Json) : Validator :=
  match js with
  | [] => .never
  | [j] => .literal j
  | js =>
    match js.mapM Json.string? with
    | some ss => .choice ss
    | none => .union (js.map .literal)

/-- The values of `enum`. -/
def ofEnum (path : SchemaPath) (j : Json) : SchemaReading Validator :=
  match j with
  | .array js => do
    checkLiterals (path ++ [.key "enum"]) 0 js
    return ofValues js
  | j => .error ⟨path ++ [.key "enum"], .notEnum j.kind⟩

/-! ## Conditions -/

/-- The format that a schema asks for, if it is one of those that can be checked. -/
def formatOf (ms : Json.Members) : List TextCheck :=
  match (Json.Members.lookup ms "format").bind Json.string? with
  | some "email" => [.format .email]
  | some "uri" => [.format .url]
  | some "url" => [.format .url]
  | some "uuid" => [.format .uuid]
  | some "date-time" => [.format .dateTime]
  | _ => []

/-- The pattern that a schema asks for. -/
def patternOf (path : SchemaPath) (ms : Json.Members) : SchemaReading (List TextCheck) :=
  match Json.Members.lookup ms "pattern" with
  | none => .ok []
  | some (.string regex) => .ok [.pattern regex]
  | some _ => .error ⟨path ++ [.key "pattern"], .notPattern⟩

/-- The conditions on a text. -/
def textChecks (path : SchemaPath) (ms : Json.Members) : SchemaReading (List TextCheck) := do
  let min ← number? path ms "minLength"
  let max ← number? path ms "maxLength"
  let pattern ← patternOf path ms
  return (min.map TextCheck.minLength).toList ++ (max.map TextCheck.maxLength).toList ++
    pattern ++ formatOf ms

/-- Whether a keyword is the boolean `true`. -/
def isTrue (ms : Json.Members) (keyword : String) : Bool :=
  match Json.Members.lookup ms keyword with
  | some (.bool b) => b
  | _ => false

/-- The keywords that bound a number.  `exclusiveMinimum` may be a boolean beside `minimum`, and
so for maxima. -/
def numberKeywords (ms : Json.Members) : List (String × Relation) :=
  [("minimum", if isTrue ms "exclusiveMinimum" then .greater else .atLeast),
    ("exclusiveMinimum", .greater),
    ("maximum", if isTrue ms "exclusiveMaximum" then .less else .atMost),
    ("exclusiveMaximum", .less),
    ("multipleOf", .multipleOf)]

/-- The condition of a keyword on a number.  Booleans are passed over. -/
def numberCheck (path : SchemaPath) (ms : Json.Members) :
    String × Relation → SchemaReading (List NumberCheck)
  | (keyword, relation) =>
    match Json.Members.lookup ms keyword with
    | some (.bool _) => .ok []
    | _ => do
      let n ← number? path ms keyword
      return (n.map (NumberCheck.mk relation)).toList

/-- The conditions on a number. -/
def numberChecks (path : SchemaPath) (ms : Json.Members) : SchemaReading (List NumberCheck) := do
  return ((← (numberKeywords ms).mapM (numberCheck path ms))).flatten

/-- The conditions on the number of items. -/
def sizeChecks (path : SchemaPath) (ms : Json.Members) : SchemaReading (List SizeCheck) := do
  let min ← number? path ms "minItems"
  let max ← number? path ms "maxItems"
  return (min.map SizeCheck.min).toList ++ (max.map SizeCheck.max).toList

/-! ## Nodes -/

/-- What `items` asks for. -/
inductive Items
  | each (v : Validator)
  | inOrder (vs : List Validator)

/-- The readings of the schemas just below a node, by keyword.  They are errors where the values
are not schemas, which matters only for the keywords that are read in the end. -/
structure Children where
  anyOf : Option (SchemaReading (List Validator))
  oneOf : Option (SchemaReading (List Validator))
  allOf : Option (SchemaReading (List Validator))
  items : Option (SchemaReading Items)
  properties : SchemaReading (List (String × Validator))
  additional : SchemaReading (Rest Validator)

namespace Children

/-- The validator for any of some members. -/
def union (vs : List Validator) : Validator :=
  match vs with
  | [] => .unknown .emptyUnion
  | [v] => v
  | vs => .union vs

/-- The validator for all of some members. -/
def intersection (vs : List Validator) : Validator :=
  match vs with
  | [] => .unknown .emptyIntersection
  | v :: vs => vs.foldl .intersection v

/-- The validator of a list. -/
def list (c : Children) (path : SchemaPath) (ms : Json.Members) : SchemaReading Validator :=
  match c.items with
  | none => do return .array .any (← sizeChecks path ms)
  | some reading => do
    match ← reading with
    | .each v => return .array v (← sizeChecks path ms)
    | .inOrder vs => return .tuple vs (← sizeChecks path ms)

/-- The validator of an object. -/
def object (c : Children) (path : SchemaPath) (ms : Json.Members) : SchemaReading Validator := do
  match Json.Members.lookup ms "properties" with
  | none => pure ()
  | some (.object _) => pure ()
  | some j => .error ⟨path ++ [.key "properties"], .notProperties j.kind⟩
  let required ← requiredNames path ms
  let properties ← c.properties
  let rest ← c.additional
  return .object (properties.map fun (name, v) => ⟨name, required.contains name, v⟩) rest

/-- The validator of a type. -/
def typed (c : Children) (path : SchemaPath) (ms : Json.Members) (type : String) :
    SchemaReading Validator :=
  match type with
  | "string" => do return .text (← textChecks path ms)
  | "number" => do return .number false (← numberChecks path ms)
  | "integer" => do return .number true (← numberChecks path ms)
  | "boolean" => .ok .boolean
  | "null" => .ok .null
  | "array" => c.list path ms
  | "object" => c.object path ms
  | type => .ok (.unknown (.unknownType type))

/-- The validator for any of some types. -/
def typedAny (c : Children) (path : SchemaPath) (ms : Json.Members) (types : List String) :
    SchemaReading Validator :=
  match types with
  | [] => .ok (.unknown .emptyTypes)
  | [type] => c.typed path ms type
  | types => do return .union (← types.mapM (c.typed path ms))

/-- The validator that the deciding keyword of a node asks for. -/
def base (c : Children) (path : SchemaPath) (ms : Json.Members) : SchemaReading Validator :=
  match Json.Members.lookup ms "const", Json.Members.lookup ms "enum", c.anyOf, c.oneOf, c.allOf with
  | some j, _, _, _, _ => ofConst path j
  | _, some j, _, _, _ => ofEnum path j
  | _, _, some reading, _, _ => union <$> reading
  | _, _, _, some reading, _ => union <$> reading
  | _, _, _, _, some reading => intersection <$> reading
  | _, _, _, _, _ =>
    match Json.Members.lookup ms "type" with
    | none => .ok (.unknown .noType)
    | some (.string type) => c.typed path ms type
    | some (.array types) => do
      c.typedAny path ms (← texts (path ++ [.key "type"]) .notTypeName 0 types)
    | some j => .error ⟨path ++ [.key "type"], .notType j.kind⟩

/-- The validator of a node. -/
def validator (c : Children) (path : SchemaPath) (ms : Json.Members) :
    SchemaReading Validator := do
  let v ← c.base path ms
  let v := if isTrue ms "nullable" then .nullable v else v
  match Json.Members.lookup ms "description" with
  | some (.string description) => return .described v description
  | _ => return v

end Children

/-! ## The recursion -/

mutual

/-- The validator of a schema at a place. -/
def ofJson (path : SchemaPath) : Json → SchemaReading Validator
  | .bool true => .ok .any
  | .bool false => .ok .never
  | .object ms =>
    Children.validator
      { anyOf := membersAt path "anyOf" ms
        oneOf := membersAt path "oneOf" ms
        allOf := membersAt path "allOf" ms
        items := itemsAt path ms
        properties := propertiesAt path ms
        additional := additionalAt path ms }
      path ms
  | j => .error ⟨path, .notSchema j.kind⟩
  termination_by structural j => j

/-- The validators of schemas in a list, the first of which has a given index. -/
def ofList (path : SchemaPath) : Nat → List Json → SchemaReading (List Validator)
  | _, [] => .ok []
  | n, j :: js => do
    let v ← ofJson (path ++ [.index n]) j
    return v :: (← ofList path (n + 1) js)
  termination_by structural _ js => js

/-- The validators of named schemas. -/
def ofMembers (path : SchemaPath) :
    List (String × Json) → SchemaReading (List (String × Validator))
  | [] => .ok []
  | (name, j) :: ms => do
    let v ← ofJson (path ++ [.key name]) j
    return (name, v) :: (← ofMembers path ms)
  termination_by structural ms => ms

/-- The validators in the list under a keyword, if the keyword is there. -/
def membersAt (path : SchemaPath) (keyword : String) :
    List (String × Json) → Option (SchemaReading (List Validator))
  | [] => none
  | (k, .array js) :: ms =>
    if k = keyword then some (ofList (path ++ [.key keyword]) 0 js)
    else membersAt path keyword ms
  | (k, j) :: ms =>
    if k = keyword then some (.error ⟨path ++ [.key keyword], .notMembers j.kind⟩)
    else membersAt path keyword ms
  termination_by structural ms => ms

/-- What `items` asks for, if it is there. -/
def itemsAt (path : SchemaPath) : List (String × Json) → Option (SchemaReading Items)
  | [] => none
  | (k, .array js) :: ms =>
    if k = "items" then some (Items.inOrder <$> ofList (path ++ [.key "items"]) 0 js)
    else itemsAt path ms
  | (k, .object os) :: ms =>
    if k = "items" then some (Items.each <$> ofJson (path ++ [.key "items"]) (.object os))
    else itemsAt path ms
  | (k, .bool b) :: ms =>
    if k = "items" then some (.ok (.each (if b then .any else .never))) else itemsAt path ms
  | (k, j) :: ms =>
    if k = "items" then some (.error ⟨path ++ [.key "items"], .notItems j.kind⟩)
    else itemsAt path ms
  termination_by structural ms => ms

/-- The validators of the properties. -/
def propertiesAt (path : SchemaPath) :
    List (String × Json) → SchemaReading (List (String × Validator))
  | [] => .ok []
  | (k, .object ps) :: ms =>
    if k = "properties" then ofMembers (path ++ [.key "properties"]) ps else propertiesAt path ms
  | (k, _) :: ms => if k = "properties" then .ok [] else propertiesAt path ms
  termination_by structural ms => ms

/-- What `additionalProperties` allows. -/
def additionalAt (path : SchemaPath) : List (String × Json) → SchemaReading (Rest Validator)
  | [] => .ok .free
  | (k, .object os) :: ms =>
    if k = "additionalProperties" then
      Rest.each <$> ofJson (path ++ [.key "additionalProperties"]) (.object os)
    else additionalAt path ms
  | (k, j) :: ms =>
    if k = "additionalProperties" then
      match j with
      | .bool false => .ok .nothing
      | _ => .ok .free
    else additionalAt path ms
  termination_by structural ms => ms

end

/-- The validator of a schema. -/
def ofSchema (j : Json) : SchemaReading Validator := ofJson [] j

end Validator

end Promptwright
