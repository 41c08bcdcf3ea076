import Promptwright.Yaml.Scalar
import Promptwright.Yaml.Token

/-! # YAML events

`Stream.ofTokens` parses the first document of a sequence of tokens.  The result is flat: an
`Event` for every scalar and alias and for both ends of every container.  Where the tokens end
too early or make no sense, the events end.

Aliases are resolved to places among the events.  A name that is anchored again gets a new
number, which is the number of names so far; where two anchors come to share a number, the later
one counts for both. -/

namespace Promptwright.Yaml

/-- A part of a document.  An alias refers to an anchor by its number; `tagged` marks
containers with a tag of the document's own. -/
inductive Event
  | alias (number : Nat)
  | scalar (s : Scalar)
  | sequenceStart (tagged : Bool)
  | sequenceEnd
  | mappingStart (tagged : Bool)
  | mappingEnd
deriving Repr

/-- The events of the first document of a text. -/
structure Stream where
  events : List Event
  /-- For each number of an anchor, the index of the event that it is on. -/
  anchors : List (Nat × Nat)
  /-- Whether there is a document at all. -/
  nonempty : Bool
  /-- Whether the text ends with this document. -/
  complete : Bool
deriving Repr

/-- A parse in progress.  The events are in reverse. -/
structure Parsing where
  tokens : List Token
  events : List Event
  count : Nat
  names : List (String × Nat)
  anchors : List (Nat × Nat)
  expansions : List (String × String)

/-- A parser.  When it fails, what it has done so far stays. -/
abbrev Parser := EStateM Unit Parsing

namespace Parser

/-- Gives up. -/
def refuse {α : Type} : Parser α := throw ()

/-- The next token. -/
def peek : Parser Token := do
  match (← get).tokens with
  | [] => refuse
  | t :: _ => return t

/-- Moves past the next token. -/
def skip : Parser Unit := modify fun p => { p with tokens := p.tokens.drop 1 }

/-- Adds an event. -/
def emit (e : Event) : Parser Unit :=
  modify fun p => { p with events := e :: p.events, count := p.count + 1 }

/-- Gives the next event an anchor. -/
def setAnchor (name : Option String) : Parser Unit :=
  match name with
  | none => pure ()
  | some name => modify fun p =>
    let number := p.names.length
    { p with
      names := (name, number) :: p.names.filter (fun x => x.1 != name)
      anchors := (number, p.count) :: p.anchors }

/-- A scalar that is not written at all. -/
def emitEmpty (anchor tag : Option String) : Parser Unit := do
  setAnchor anchor
  emit (.scalar ⟨"", .plain, tag⟩)

/-- The full text of a tag. -/
def resolveTag (handle suffix : String) : Parser String := do
  if handle.isEmpty then return suffix
  else
    match (← get).expansions.lookup handle with
    | some expansion => return expansion ++ suffix
    | none => refuse

/-- Reads the anchor and the tag before a node, in either order. -/
def properties : Parser (Option String × Option String) := do
  match ← peek with
  | .anchor a =>
    skip
    match ← peek with
    | .tag h s =>
      skip
      let _ ← peek
      return (some a, some (← resolveTag h s))
    | _ => return (some a, none)
  | .tag h s =>
    skip
    match ← peek with
    | .anchor a =>
      skip
      let _ ← peek
      return (some a, some (← resolveTag h s))
    | _ => return (none, some (← resolveTag h s))
  | _ => return (none, none)

mutual

/-- Parses a node.  Block structure is only allowed with `block`; a sequence that is not
indented, only with `unindented`. -/
def node : Nat → Bool → Bool → Parser Unit
  | 0, _, _ => refuse
  | fuel + 1, block, unindented => do
    match ← peek with
    | .alias name =>
      match (← get).names.lookup name with
      | some number =>
        skip
        emit (.alias number)
      | none => refuse
    | _ =>
      let (anchor, tag) ← properties
      let tagged := Scalar.isLocalTag tag
      match ← peek with
      | .scalar text style =>
        setAnchor anchor
        emit (.scalar ⟨text, style, tag⟩)
        skip
      | .flowSequenceStart =>
        setAnchor anchor
        emit (.sequenceStart tagged)
        skip
        flowSequence fuel true
      | .flowMappingStart =>
        setAnchor anchor
        emit (.mappingStart tagged)
        skip
        flowMapping fuel true
      | t =>
        if unindented && t == .blockEntry then do
          setAnchor anchor
          emit (.sequenceStart tagged)
          unindentedSequence fuel
        else if block && t == .blockSequenceStart then do
          setAnchor anchor
          emit (.sequenceStart tagged)
          skip
          blockSequence fuel
        else if block && t == .blockMappingStart then do
          setAnchor anchor
          emit (.mappingStart tagged)
          skip
          blockMapping fuel
        else if anchor.isSome || tag.isSome then emitEmpty anchor tag
        else refuse

/-- Parses the items of a block sequence. -/
def blockSequence : Nat → Parser Unit
  | 0 => refuse
  | fuel + 1 => do
    match ← peek with
    | .blockEntry =>
      skip
      match ← peek with
      | .blockEntry => emitEmpty none none
      | .blockEnd => emitEmpty none none
      | _ => node fuel true false
      blockSequence fuel
    | .blockEnd =>
      emit .sequenceEnd
      skip
    | _ => refuse

/-- Parses the items of a block sequence that is not indented. -/
def unindentedSequence : Nat → Parser Unit
  | 0 => refuse
  | fuel + 1 => do
    match ← peek with
    | .blockEntry =>
      skip
      match ← peek with
      | .blockEntry => emitEmpty none none
      | .key => emitEmpty none none
      | .value => emitEmpty none none
      | .blockEnd => emitEmpty none none
      | _ => node fuel true false
      unindentedSequence fuel
    | _ => emit .sequenceEnd

/-- Parses the entries of a block mapping. -/
def blockMapping : Nat → Parser Unit
  | 0 => refuse
  | fuel + 1 => do
    match ← peek with
    | .key =>
      skip
      blockPart fuel
      blockValue fuel
    | .value =>
      -- a value without a key
      refuse
    | .blockEnd =>
      emit .mappingEnd
      skip
    | _ => refuse

/-- Parses a key or a value of a block mapping after its indicator. -/
def blockPart : Nat → Parser Unit
  | 0 => refuse
  | fuel + 1 => do
    match ← peek with
    | .key => emitEmpty none none
    | .value => emitEmpty none none
    | .blockEnd => emitEmpty none none
    | _ => node fuel true true

/-- Parses the value of a block mapping that belongs to a key, and the entries after it. -/
def blockValue : Nat → Parser Unit
  | 0 => refuse
  | fuel + 1 => do
    match ← peek with
    | .value =>
      skip
      blockPart fuel
    | _ => emitEmpty none none
    blockMapping fuel

/-- Parses the items of a flow sequence. -/
def flowSequence : Nat → Bool → Parser Unit
  | 0, _ => refuse
  | fuel + 1, first => do
    match ← peek with
    | .flowSequenceEnd =>
      emit .sequenceEnd
      skip
    | t =>
      if !first then
        if t == .flowEntry then skip else refuse
      match ← peek with
      | .key =>
        emit (.mappingStart false)
        skip
        singlePair fuel
        flowSequence fuel false
      | .flowSequenceEnd =>
        emit .sequenceEnd
        skip
      | _ =>
        node fuel false false
        flowSequence fuel false

/-- Parses a mapping of a single pair in a flow sequence, after its key indicator. -/
def singlePair : Nat → Parser Unit
  | 0 => refuse
  | fuel + 1 => do
    match ← peek with
    | .value =>
      skip
      emitEmpty none none
    | .flowEntry =>
      skip
      emitEmpty none none
    | .flowSequenceEnd =>
      skip
      emitEmpty none none
    | _ => node fuel false false
    match ← peek with
    | .value =>
      skip
      match ← peek with
      | .flowEntry => emitEmpty none none
      | .flowSequenceEnd => emitEmpty none none
      | _ => node fuel false false
    | _ => emitEmpty none none
    emit .mappingEnd

/-- Parses the entries of a flow mapping. -/
def flowMapping : Nat → Bool → Parser Unit
  | 0, _ => refuse
  | fuel + 1, first => do
    match ← peek with
    | .flowMappingEnd =>
      emit .mappingEnd
      skip
    | t =>
      if !first then
        if t == .flowEntry then skip else refuse
      match ← peek with
      | .key =>
        skip
        match ← peek with
        | .value => emitEmpty none none
        | .flowEntry => emitEmpty none none
        | .flowMappingEnd => emitEmpty none none
        | _ => node fuel false false
        flowValue fuel
        flowMapping fuel false
      | .flowMappingEnd =>
        emit .mappingEnd
        skip
      | _ =>
        node fuel false false
        emitEmpty none none
        flowMapping fuel false

/-- Parses the value of a flow mapping that belongs to a key. -/
def flowValue : Nat → Parser Unit
  | 0 => refuse
  | fuel + 1 => do
    match ← peek with
    | .value =>
      skip
      match ← peek with
      | .flowEntry => emitEmpty none none
      | .flowMappingEnd => emitEmpty none none
      | _ => node fuel false false
    | _ => emitEmpty none none

end

/-! ## Documents -/

/-- The handles that every document knows. -/
def defaultExpansions : List (String × String) := [("!", "!"), ("!!", "tag:yaml.org,2002:")]

/-- Reads the directives before a document: at most one version, which is 1.1 or 1.2, and for
each handle at most one expansion. -/
def directives : Nat → Bool → List (String × String) → Parser (List (String × String))
  | 0, _, _ => refuse
  | fuel + 1, versioned, expansions => do
    match ← peek with
    | .versionDirective major minor =>
      if versioned || major != 1 || (minor != 1 && minor != 2) then refuse
      else
        skip
        directives fuel true expansions
    | .tagDirective handle expansion =>
      if (expansions.lookup handle).isSome then refuse
      else
        skip
        directives fuel versioned ((handle, expansion) :: expansions)
    | _ => return expansions

/-- Parses the first document, if there is one, and the mark at its end. -/
def document (fuel : Nat) : Parser Bool := do
  match ← peek with
  | .streamEnd => return false
  | t =>
    let explicit := match t with
      | .versionDirective .. => true
      | .tagDirective .. => true
      | .documentStart => true
      | _ => false
    if explicit then
      let own ← directives fuel false []
      match ← peek with
      | .documentStart => skip
      | _ => refuse
      modify fun p => { p with expansions := own ++ defaultExpansions }
      match ← peek with
      | .versionDirective .. => emitEmpty none none
      | .tagDirective .. => emitEmpty none none
      | .documentStart => emitEmpty none none
      | .documentEnd => emitEmpty none none
      | .streamEnd => emitEmpty none none
      | _ => node fuel true false
    else
      modify fun p => { p with expansions := defaultExpansions }
      node fuel true false
    match ← peek with
    | .documentEnd => skip
    | _ => pure ()
    return true

end Parser

/-- Whether nothing but marks between documents is left. -/
def onlyMarksLeft : List Token → Bool
  | .documentEnd :: ts => onlyMarksLeft ts
  | [.streamEnd] => true
  | _ => false

/-- Parses the first document of a sequence of tokens. -/
def Stream.ofTokens (tokens : List Token) : Stream :=
  match Parser.document (8 * tokens.length + 8) ⟨tokens, [], 0, [], [], []⟩ with
  | .ok found p =>
    ⟨p.events.reverse, p.anchors, found, !found || onlyMarksLeft p.tokens⟩
  | .error _ p => ⟨p.events.reverse, p.anchors, true, false⟩

end Promptwright.Yaml
