import Promptwright.Package.Module
import Promptwright.Proofs.Files.Segments
import Promptwright.Proofs.Validator.Readable

/-!
# Where errors of schemas are

The error of a schema tells a path in words, such as `#/properties/mode/enum/1`.  `Json.walk?` goes
the way that such words tell, one segment after the other.  It comes to the value that is at fault,
as long as the names of properties hold no slash, and the message tells the kind of that value.

## Key results

- `AtFault.walk`: the steps to a value that is at fault
- `segments_text`: the segments of a path in words
- `Offence.tellsKind`: what a message tells
- `schema_errors_located`: which schemas have errors, and where
-/

namespace Promptwright

/-! ## Walking -/

namespace Json

/-- The part of a value that a segment tells: the value of a key, or the item at an index. -/
def part? (segment : String) : Json → Option Json
  | .object ms => Members.lookup ms segment
  | .array js =>
    let n := Nat.ofDigitChars 10 segment.toList 0
    if toString n = segment then js[n]? else none
  | _ => none

/-- The value that some segments lead to. -/
def walk? (segments : List String) (j : Json) : Option Json :=
  segments.foldlM (fun j segment => j.part? segment) j

example : (Json.array [.null, .object [("1", .bool true)]]).walk? ["1", "1"] =
    some (.bool true) := by rfl

/-- An index leads to an item. -/
theorem part?_toString {js : List Json} {n : Nat} {j : Json} (h : js[n]? = some j) :
    part? (toString n) (.array js) = some j := by
  have hread : Nat.ofDigitChars 10 (toString n).toList 0 = n := by
    rw [Nat.toString_eq_ofList_toDigits, String.toList_ofList, Nat.ofDigitChars_ten_toDigits]
  simp only [part?, hread, if_true, h]

/-- One way goes on where another one ends. -/
theorem walk?_append {ss : List String} {j i : Json} (h : walk? ss j = some i)
    (ts : List String) : walk? (ss ++ ts) j = walk? ts i := by
  rw [walk?, List.foldlM_append]
  show (walk? ss j).bind _ = _
  rw [h]
  rfl

/-- A key leads to its value. -/
theorem walk?_key {ms : Members} {key : String} {j : Json} (h : Members.lookup ms key = some j) :
    walk? [key] (.object ms) = some j := by
  show (Members.lookup ms key).bind _ = _
  rw [h]
  rfl

/-- A key and an index lead to an item. -/
theorem walk?_item {ms : Members} {key : String} {js : List Json} {n : Nat} {j : Json}
    (h : Members.lookup ms key = some (.array js)) (hj : js[n]? = some j) :
    walk? [key, toString n] (.object ms) = some j := by
  refine (walk?_append (walk?_key h) [toString n]).trans ?_
  show (part? (toString n) (.array js)).bind _ = _
  rw [part?_toString hj]
  rfl

end Json

namespace Validator

open Json.Members (lookup)

variable {ms : Json.Members} {place : SchemaPath} {j : Json} {fault : SchemaFault}

/-- The way to a node just below leads there. -/
theorem Dispatched.walk (h : Dispatched ms place j) :
    Json.walk? (place.map SchemaStep.text) (.object ms) = some j := by
  cases h with
  | member _ h hj => exact Json.walk?_item h hj
  | items _ h _ => exact Json.walk?_key h
  | item _ h hj => exact Json.walk?_item h hj
  | property _ h hj => exact (Json.walk?_append (Json.walk?_key h) _).trans (Json.walk?_key hj)
  | additional _ h => exact Json.walk?_key h

/-- The way to a value that has not the right form leads there. -/
theorem Misread.walk (h : Misread ms place j fault) :
    Json.walk? (place.map SchemaStep.text) (.object ms) = some j := by
  cases h with
  | enumItem _ h hn _ => exact Json.walk?_item h hn
  | typeName _ h hn _ => exact Json.walk?_item h hn
  | requiredName _ h hn _ => exact Json.walk?_item h hn
  | const _ h _ => exact Json.walk?_key h
  | enum _ h _ => exact Json.walk?_key h
  | members _ h _ => exact Json.walk?_key h
  | type _ h _ _ => exact Json.walk?_key h
  | pattern _ h _ => exact Json.walk?_key h
  | bound _ _ h _ => exact Json.walk?_key h
  | items _ h _ _ => exact Json.walk?_key h
  | properties _ h _ => exact Json.walk?_key h
  | required _ h _ => exact Json.walk?_key h

/-- The way to a node that is reached leads there. -/
theorem Reached.walk {schema node : Json} {way : SchemaPath} (h : Reached schema way node) :
    Json.walk? (way.map SchemaStep.text) schema = some node := by
  induction h with
  | here schema => rfl
  | step hd _ ih => rw [List.map_append, Json.walk?_append hd.walk, ih]

/-- The way to a value that is at fault leads there. -/
theorem AtFault.walk {schema : Json} (h : AtFault schema place j fault) :
    Json.walk? (place.map SchemaStep.text) schema = some j := by
  obtain ⟨way, node, rest, hr, ho, rfl⟩ := h
  rw [List.map_append, Json.walk?_append hr.walk]
  cases ho with
  | notSchema _ => rfl
  | misread hm => exact hm.walk

/-! ## Paths in words -/

/-- The names of properties in a schema hold no slash. -/
def PlainNames (schema : Json) : Prop :=
  Json.Everywhere (fun node => ∀ ms, node = .object ms →
    ∀ name ∈ Json.propertyNames ms, '/' ∉ name.toList) schema

/-- The segments of a path in words, if its steps hold no slash. -/
theorem segments_text {path : SchemaPath} (h : ∀ step ∈ path, '/' ∉ step.text.toList) :
    Path.segments path.text = "#" :: path.map SchemaStep.text := by
  -- what stands in front of a step does not matter, so the induction is on the steps
  suffices hfold : ∀ start : String,
      Path.segments (path.foldl (fun s step => s ++ "/" ++ step.text) start) =
        Path.segments start ++ path.map SchemaStep.text from hfold "#"
  induction path with
  | nil => simp
  | cons step path ih =>
    intro start
    obtain ⟨hstep, hpath⟩ := List.forall_mem_cons.mp h
    rw [List.foldl_cons, ih hpath, Path.segments_append_slash, Path.segments_of_not_mem hstep]
    simp

/-- An index holds no slash. -/
theorem slash_not_mem_index (n : Nat) : '/' ∉ (SchemaStep.index n).text.toList := by
  intro h
  rw [SchemaStep.text, Nat.toString_eq_ofList_toDigits, String.toList_ofList] at h
  exact absurd (Nat.isDigit_of_mem_toDigits (by decide) (by decide) h) (by decide)

/-- A keyword and an index hold no slash if the keyword does not. -/
theorem slash_not_mem_item {key : String} (h : '/' ∉ key.toList) (n : Nat) :
    ∀ step ∈ [SchemaStep.key key, .index n], '/' ∉ step.text.toList :=
  List.forall_mem_cons.mpr ⟨h, List.forall_mem_singleton.mpr (slash_not_mem_index n)⟩

/-- The way to a node just below holds no slash if the names of properties do not. -/
theorem Dispatched.slash_not_mem (h : Dispatched ms place j)
    (hnames : ∀ name ∈ Json.propertyNames ms, '/' ∉ name.toList) :
    ∀ step ∈ place, '/' ∉ step.text.toList := by
  have hcombinators : ∀ key ∈ Json.combinators, '/' ∉ key.toList := by decide
  cases h with
  | member hd _ _ =>
    exact slash_not_mem_item (hcombinators _ (mem_combinators_of_combinator? hd)) _
  | items _ _ _ => decide
  | item _ _ _ => exact slash_not_mem_item (by decide) _
  | @property ps name _ _ h hj =>
    have hname : name ∈ Json.propertyNames ms := by
      rw [Json.propertyNames, Json.declared, h]
      exact List.mem_map_of_mem (Json.Members.mem_of_lookup hj)
    have hkeyword : '/' ∉ (SchemaStep.key "properties").text.toList := by decide
    exact List.forall_mem_cons.mpr
      ⟨hkeyword, List.forall_mem_singleton.mpr (hnames name hname)⟩
  | additional _ _ => decide

/-- The way from a node to a value in it holds no slash. -/
theorem Misread.slash_not_mem (h : Misread ms place j fault) :
    ∀ step ∈ place, '/' ∉ step.text.toList := by
  have hcombinators : ∀ key ∈ Json.combinators, '/' ∉ key.toList := by decide
  have hbounds : ∀ type, ∀ keyword ∈ boundsOf type, '/' ∉ keyword.toList := by
    intro type
    unfold boundsOf
    split <;> decide
  cases h with
  | members hd _ _ =>
    exact List.forall_mem_singleton.mpr (hcombinators _ (mem_combinators_of_combinator? hd))
  | bound _ hk _ _ => exact List.forall_mem_singleton.mpr (hbounds _ _ hk)
  | enumItem _ _ _ _ => exact slash_not_mem_item (by decide) _
  | typeName _ _ _ _ => exact slash_not_mem_item (by decide) _
  | requiredName _ _ _ _ => exact slash_not_mem_item (by decide) _
  | _ => decide

/-- The way to a node that is reached holds no slash if the names of properties do not. -/
theorem Reached.slash_not_mem {schema node : Json} {way : SchemaPath}
    (h : Reached schema way node) (hnames : PlainNames schema) :
    ∀ step ∈ way, '/' ∉ step.text.toList := by
  induction h with
  | here schema => exact nofun
  | step hd _ ih =>
    exact List.forall_mem_append.mpr
      ⟨hd.slash_not_mem (hnames.here _ rfl), ih (hnames.below hd.child)⟩

/-- The way to a value that is at fault holds no slash if the names of properties do not. -/
theorem AtFault.slash_not_mem {schema : Json} (h : AtFault schema place j fault)
    (hnames : PlainNames schema) : ∀ step ∈ place, '/' ∉ step.text.toList := by
  obtain ⟨way, node, rest, hr, ho, rfl⟩ := h
  refine List.forall_mem_append.mpr ⟨hr.slash_not_mem hnames, ?_⟩
  cases ho with
  | notSchema _ => exact nofun
  | misread hm => exact hm.slash_not_mem

/-! ## Messages -/

/-- A message tells the kind of a value, unless it is about a pattern. -/
inductive TellsKind : String → Json → Prop
  | found (words : String) (j : Json) : TellsKind (words ++ ", found " ++ j.kind) j
  | literal (j : Json) : TellsKind (j.kind ++ " cannot be used as a literal value") j
  | pattern {j : Json} (h : ∀ s, j ≠ .string s) : TellsKind "\"pattern\" must be a string" j

/-- The message for a value that is at fault tells its kind. -/
theorem AtFault.tellsKind {schema : Json} (h : AtFault schema place j fault) :
    TellsKind fault.message j := by
  obtain ⟨way, node, rest, -, ho, -⟩ := h
  cases ho with
  | notSchema _ => exact .found "expected a schema object" j
  | misread hm =>
    cases hm with
    | const _ _ _ => exact .literal j
    | enumItem _ _ _ _ => exact .literal j
    | pattern _ _ hj => exact .pattern hj
    | enum _ _ _ => exact .found "\"enum\" must be a list" j
    | members _ _ _ => exact .found "expected a list of schemas" j
    | type _ _ _ _ => exact .found "\"type\" must be a string or a list of strings" j
    | typeName _ _ _ _ => exact .found "type names must be strings" j
    | @bound _ keyword _ _ _ _ _ =>
      -- the words about the kind are a part of the last piece of this message
      have hwords : "\"" ++ keyword ++ "\" must be a number" ++ ", found " =
          "\"" ++ keyword ++ "\" must be a number, found " := String.append_assoc
      have hfound := TellsKind.found ("\"" ++ keyword ++ "\" must be a number") j
      rwa [hwords] at hfound
    | items _ _ _ _ => exact .found "\"items\" must be a schema or a list of schemas" j
    | properties _ _ _ => exact .found "\"properties\" must be a map" j
    | required _ _ _ => exact .found "\"required\" must be a list" j
    | requiredName _ _ _ _ => exact .found "required property names must be strings" j

/-! ## Errors -/

/-- A schema has an error just if, in some node that reading comes to, a value has not the form that
its place asks for.  The path of the error, in words, leads to such a value, of the kind that the
message tells, if the names of properties hold no slash. -/
theorem schema_errors_located (binding : String) {s : Schema} (hw : s.value.WellFormed) :
    ((∃ e, Fragment.ofSchema binding s = .error e) ↔
      ∃ place j fault, AtFault s.value place j fault) ∧
    ∀ e, Fragment.ofSchema binding s = .error e → PlainNames s.value →
      ∃ j, Json.walk? (Path.segments e.path.text).tail s.value = some j ∧
        AtFault s.value e.path j e.fault ∧ TellsKind e.fault.message j := by
  -- a validator has an error just if its schema has, since writing it does not fail
  have herror : ∀ e, Fragment.ofSchema binding s = .error e ↔ ofJson [] s.value = .error e := by
    intro e
    rw [Fragment.ofSchema, ofSchema]
    cases ofJson [] s.value with
    | error e' => exact ⟨fun h => congrArg _ (Except.error.inj h), fun h => by cases h; rfl⟩
    | ok v => exact ⟨nofun, nofun⟩
  constructor
  · rw [← exists_error_iff hw []]
    exact exists_congr herror
  · intro e he hnames
    obtain ⟨place, j, hfault, hpath⟩ := atFault_of_error hw ((herror e).mp he)
    rw [List.nil_append] at hpath
    rw [hpath, segments_text (hfault.slash_not_mem hnames)]
    exact ⟨j, hfault.walk, hfault, hfault.tellsKind⟩

/-- Settings with a mode that is one of two values, one of which is an object. -/
def settings : Json :=
  .object [("type", .strings ["object", "null"]),
    ("properties", .object [("mode", .object [("enum", .array [.string "a", .object []])])])]

/-- The error of such a schema leads to the object. -/
theorem schema_errors_located_settings :
    settings.WellFormed ∧ PlainNames settings ∧
      ((∃ e, Fragment.ofSchema "settingsSchema" ⟨settings⟩ = .error e) ↔
        ∃ place j fault, AtFault settings place j fault) ∧
      ∃ e, Fragment.ofSchema "settingsSchema" ⟨settings⟩ = .error e ∧
        e.path.text = "#/properties/mode/enum/1" ∧
        ∃ j, Json.walk? (Path.segments e.path.text).tail settings = some j ∧
          AtFault settings e.path j e.fault ∧ TellsKind e.fault.message j := by
  have hw : settings.WellFormed :=
    ⟨by decide, ⟨trivial, trivial, trivial⟩,
      ⟨by decide, ⟨by decide, ⟨trivial, ⟨by decide, trivial⟩, trivial⟩, trivial⟩, trivial⟩, trivial⟩
  have hnames : PlainNames settings := by
    refine .intro (fun ms h => ?_) fun c hc => ?_
    · cases h
      decide
    cases hc with
    | member hkey h _ =>
      simp only [Json.combinators, List.mem_cons, List.not_mem_nil, or_false] at hkey
      obtain rfl | rfl | rfl := hkey <;> cases h
    | items h _ => cases h
    | item h _ => cases h
    | additional h => cases h
    | property h hp =>
      cases h
      obtain rfl := List.mem_singleton.mp hp
      refine .leaf (fun ms h => ?_) (by decide)
      cases h
      decide
  have hlocated := schema_errors_located "settingsSchema" (s := ⟨settings⟩) hw
  exact ⟨hw, hnames, hlocated.1, _, rfl, by decide, hlocated.2 _ rfl hnames⟩

end Validator

end Promptwright
