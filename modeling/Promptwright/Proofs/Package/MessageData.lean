import Promptwright.Proofs.Json.Evaluated
import Promptwright.Proofs.Package.Literal

/-!
# Messages as data of a module

A module holds its messages as the text of their JSON form.  The text is an expression of scripts,
and all names in it are fixed but those in the arguments and the results of tools, which may be any
JSON.  A script gets back the messages with all that is in these, except for the members with the
name `__proto__`.

## Key results

- `Message.toJson_iff`: conditions on messages are conditions on the values of users in them
- `evaluate_messages`: the data that a script gets for its messages
- `result_lost`: a result of a tool that a script does not get
-/

namespace Promptwright

open Script (evaluate prototypeName)

/-! ## Values of users -/

/-- A condition that a value meets if all its parts do.  Objects count as long as their keys are
different and no key is the name of a prototype. -/
structure Json.Inherited (P : Json → Prop) : Prop where
  bool : ∀ b, P (.bool b)
  string : ∀ s, P (.string s)
  array : ∀ js, P (.array js) ↔ ∀ j ∈ js, P j
  object : ∀ (keys : List String) {ms : Members}, keys.Nodup ∧ prototypeName ∉ keys →
    ms.keys = keys → (P (.object ms) ↔ ∀ m ∈ ms, P m.2)

namespace Json

/-- Values that documents can hold. -/
theorem inherited_wellFormed : Inherited WellFormed where
  bool _ := trivial
  string _ := trivial
  array _ := wellFormedItems_iff
  object _ _ hkeys hms := (and_iff_right (hms ▸ hkeys.1)).trans wellFormedMembers_iff

/-- Values with proper numbers. -/
theorem inherited_proper : Inherited Proper where
  bool _ := trivial
  string _ := trivial
  array _ := properItems_iff
  object _ _ _ _ := properMembers_iff

/-- Values without prototypes. -/
theorem inherited_noPrototypes : Inherited NoPrototypes where
  bool _ := trivial
  string _ := trivial
  array _ := itemsNoPrototypes_iff
  object _ ms hkeys hms := by
    refine membersNoPrototypes_iff.trans (forall₂_congr fun m hm => and_iff_right ?_)
    intro hname
    exact hkeys.2 (hms ▸ hname ▸ List.mem_map_of_mem hm)

end Json

namespace Message

/-- The values in a message that may be any JSON. -/
def values : Message → List Json
  | .user .. => []
  | .assistant _ calls => calls.map ToolCall.arguments
  | .tool _ _ result _ => [result]

variable {P : Json → Prop}

/-- A call of a tool meets a condition if its arguments do. -/
theorem toolCall_toJson_iff (h : Json.Inherited P) (c : ToolCall) :
    P c.toJson ↔ P c.arguments := by
  have hfunction : P (.object [("name", .string c.name), ("arguments", c.arguments)]) ↔
      P c.arguments := by
    rw [h.object ["name", "arguments"] (by decide) rfl]
    simp [h.string]
  rw [ToolCall.toJson, h.object ["id", "function"] (by decide) rfl]
  simp [h.string, hfunction]

/-- A message meets a condition if the values in it do. -/
theorem toJson_iff (h : Json.Inherited P) (m : Message) : P m.toJson ↔ ∀ v ∈ m.values, P v := by
  -- each form is an object with keys that are given, and the condition goes to its values
  cases m with
  | user content name =>
    cases name with
    | none =>
      rw [toJson, h.object ["role", "content"] (by decide) rfl]
      simp [h.string, values]
    | some name =>
      rw [toJson, h.object ["role", "content", "name"] (by decide) rfl]
      simp [h.string, values]
  | assistant content calls =>
    cases calls with
    | nil =>
      rw [toJson, h.object ["role", "content"] (by decide) rfl]
      simp [h.string, values]
    | cons c cs =>
      rw [toJson, h.object ["role", "content", "toolCalls"] (by decide) rfl]
      simp [h.string, h.array, values, toolCall_toJson_iff h]
  | tool callId name result isError =>
    rw [toJson, h.object ["role", "toolCallId", "toolName", "result", "isError"] (by decide) rfl]
    simp [h.string, h.bool, values]

/-- So does a conversation. -/
theorem listToJson_iff (h : Json.Inherited P) (ms : List Message) :
    P (listToJson ms) ↔ ∀ m ∈ ms, ∀ v ∈ m.values, P v := by
  simp [listToJson, h.array, toJson_iff h]

end Message

/-! ## Data of messages -/

/-- Where a module has messages, the text behind their key is an expression.  Its value is the data
of the JSON form of the messages, but for the members with the name of a prototype, at any depth in
the arguments and the results of tools.  So the script gets back just what the messages hold if
there are no such members, and only then. -/
theorem evaluate_messages {ms : List Message}
    (h : ∀ m ∈ ms, ∀ v ∈ m.values, v.WellFormed ∧ v.Proper) :
    (∀ key, ms ≠ [] → messagesSource key ms =
      line (key ++ ": " ++ (Message.listToJson ms).pretty ++ ",")) ∧
    evaluate (Message.listToJson ms).pretty =
      some (Message.listToJson ms).withoutPrototypes.data ∧
    (evaluate (Message.listToJson ms).pretty = some (Message.listToJson ms).data ↔
      ∀ m ∈ ms, ∀ v ∈ m.values, v.NoPrototypes) := by
  have hw := (Message.listToJson_iff Json.inherited_wellFormed ms).mpr fun m hm v hv =>
    (h m hm v hv).1
  have hp := (Message.listToJson_iff Json.inherited_proper ms).mpr fun m hm v hv =>
    (h m hm v hv).2
  have heval := Json.evaluate_pretty hw hp
  refine ⟨fun key => messagesSource_eq, heval, ?_⟩
  rw [heval, Option.some_inj, Json.data_withoutPrototypes_iff,
    Message.listToJson_iff Json.inherited_noPrototypes]

/-- A result with a member that has the name of a prototype. -/
def resultWithPrototype : Message :=
  .tool "1" "lookup" (.object [("__proto__", .string "x"), ("n", .number (.integer (-2)))]) false

/-- The script gets the other member only. -/
theorem evaluate_messages_resultWithPrototype :
    (∀ m ∈ [resultWithPrototype], ∀ v ∈ m.values, v.WellFormed ∧ v.Proper) ∧
      evaluate (Message.listToJson [resultWithPrototype]).pretty =
        some (Message.listToJson [.tool "1" "lookup"
          (.object [("n", .number (.integer (-2)))]) false]).data := by
  have h : ∀ m ∈ [resultWithPrototype], ∀ v ∈ m.values, v.WellFormed ∧ v.Proper := by
    intro m hm v hv
    obtain rfl := List.mem_singleton.mp hm
    obtain rfl := List.mem_singleton.mp hv
    exact ⟨⟨by decide, trivial, trivial, trivial⟩, trivial, trivial, trivial⟩
  exact ⟨h, (evaluate_messages h).2.1⟩

/-- A script does not get back a result that is all prototype. -/
theorem result_lost :
    evaluate (Message.listToJson [.tool "1" "lookup"
      (.object [("__proto__", .string "x")]) false]).pretty =
        some (Message.listToJson [.tool "1" "lookup" (.object []) false]).data ∧
    (Message.listToJson [.tool "1" "lookup" (.object []) false]).data ≠
      (Message.listToJson [.tool "1" "lookup"
        (.object [("__proto__", .string "x")]) false]).data := by
  refine ⟨Json.evaluate_pretty ?_ ?_, fun h => ?_⟩
  · exact ⟨⟨by decide, trivial, trivial, trivial, ⟨by decide, trivial, trivial⟩, trivial, trivial⟩,
      trivial⟩
  · exact ⟨⟨trivial, trivial, trivial, ⟨trivial, trivial⟩, trivial, trivial⟩, trivial⟩
  · simp [Message.listToJson, Message.toJson, Json.data, Json.itemsData, Json.membersData] at h

end Promptwright
