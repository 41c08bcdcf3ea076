import Promptwright.Yaml.Event

/-! # YAML documents as trees

`Document.ofYamlText` builds the tree of the first document of a YAML text.  Aliases are
replaced by what they refer to, each time anew.  To keep this within bounds, containers may not
nest too deeply and aliases may not be replaced too often; what goes beyond is a `fault`. -/

namespace Promptwright.Yaml

/-- The number of containers that may stand inside one another. -/
def maxDepth : Nat := 128

/-- The number of aliases that may be replaced, for each event of the document. -/
def maxReplacements : Nat := 100

namespace Stream

/-- The events from an anchor on; if there is no such anchor, none. -/
def eventsAt (s : Stream) (number : Nat) : List Event :=
  match s.anchors.lookup number with
  | some index => s.events.drop index
  | none => []

mutual

/-- Builds a node from events at a depth.  Returns what is left of the events, if the node has
no fault, and the number of aliases replaced so far. -/
def node (s : Stream) : Nat → Nat → Nat → List Event → Node × Option (List Event) × Nat
  | 0, _, used, _ => (.fault, none, used)
  | fuel + 1, depth, used, events =>
    match events with
    | .scalar x :: rest => (.scalar x, some rest, used)
    | .alias number :: rest =>
      if maxReplacements * s.events.length < used + 1 then (.fault, none, used)
      else
        let (n, ended, used) := node s fuel depth (used + 1) (s.eventsAt number)
        (n, if ended.isSome then some rest else none, used)
    | .sequenceStart tagged :: rest =>
      if maxDepth ≤ depth then (.fault, none, used)
      else
        let (items, rest, used) := items s fuel (depth + 1) used rest
        (.sequence tagged items, rest, used)
    | .mappingStart tagged :: rest =>
      if maxDepth ≤ depth then (.fault, none, used)
      else
        let (entries, rest, used) := entries s fuel (depth + 1) used rest
        (.mapping tagged entries, rest, used)
    | _ => (.fault, none, used)

/-- Builds the items of a sequence. -/
def items (s : Stream) : Nat → Nat → Nat → List Event → List Node × Option (List Event) × Nat
  | 0, _, used, _ => ([.fault], none, used)
  | fuel + 1, depth, used, events =>
    match events with
    | .sequenceEnd :: rest => ([], some rest, used)
    | events =>
      match node s fuel depth used events with
      | (n, none, used) => ([n], none, used)
      | (n, some rest, used) =>
        let (ns, rest, used) := items s fuel depth used rest
        (n :: ns, rest, used)

/-- Builds the entries of a mapping. -/
def entries (s : Stream) :
    Nat → Nat → Nat → List Event → List (Node × Node) × Option (List Event) × Nat
  | 0, _, used, _ => ([(.fault, .fault)], none, used)
  | fuel + 1, depth, used, events =>
    match events with
    | .mappingEnd :: rest => ([], some rest, used)
    | events =>
      match node s fuel depth used events with
      | (k, none, used) => ([(k, .fault)], none, used)
      | (k, some rest, used) =>
        match node s fuel depth used rest with
        | (v, none, used) => ([(k, v)], none, used)
        | (v, some rest, used) =>
          let (es, rest, used) := entries s fuel depth used rest
          ((k, v) :: es, rest, used)

end

/-- The tree of the document. -/
def root (s : Stream) : Node :=
  if s.nonempty then (s.node (2 * (maxDepth + 2) * (s.events.length + 2)) 0 0 s.events).1
  else .absent

end Stream

end Yaml

namespace Document

/-- Reads a YAML text.  The document is complete when no other one follows it. -/
def ofYamlText (text : String) : Document :=
  let s := Yaml.Stream.ofTokens (Yaml.Token.ofText text)
  ⟨s.root, s.complete⟩

end Document

end Promptwright
