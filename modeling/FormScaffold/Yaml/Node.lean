import FormScaffold.Yaml.Token

/-!
# Nodes of a document

A node is a scalar, a sequence or a mapping, with the tag that is written on it. An alias stands for
a copy of the node that its anchor names; an anchor names one node, which is complete when an alias
refers to it. A stream holds at most one document.

Main definitions: `Yaml.Node` and `Yaml.document?`.
-/

namespace FormScaffold.Yaml

/-- The nodes. -/
inductive Node where
  | scalar (tag : Option String) (plain : Bool) (text : String)
  | sequence (tag : Option String) (items : List Node)
  | mapping (tag : Option String) (pairs : List (Node × Node))

/-- A scalar that is left out. -/
def Node.absent : Node := .scalar none true ""

/-- What the reading of nodes remembers. -/
structure NodeState where
  tokens : List Token
  anchors : List (String × Node)
  /-- What the handles of tags stand for. -/
  handles : List (String × String)

/-- A reading of nodes, which may fail. -/
abbrev NodeReader (α : Type) := StateT NodeState Option α

namespace NodeReader

/-- The next token. -/
def peek : NodeReader (Option Token) := do return (← get).tokens.head?

/-- Leaves the next token behind. -/
def drop : NodeReader Unit := modify fun s => { s with tokens := s.tokens.drop 1 }

/-- Leaves the next token behind if it is this one. -/
def skip (t : Token) : NodeReader Bool := do
  if (← peek) == some t then
    drop
    return true
  else return false

/-- Leaves the next token behind, which must be this one. -/
def expect (t : Token) : NodeReader Unit := do
  if !(← skip t) then failure

/-- Whether the next token is one of these, or none is left. -/
def at? (ts : List Token) : NodeReader Bool := do
  return match ← peek with
    | some t => ts.contains t
    | none => true

/-- An anchor that stands here. -/
def anchor? : NodeReader (Option String) := do
  match ← peek with
  | some (.anchor name) =>
    drop
    return some name
  | _ => return none

/-- The tag that a written tag means. -/
def tagOf (t : TagText) : NodeReader String := do
  match t with
  | .full text => return text
  | .short handle suffix =>
    match (← get).handles.lookup handle with
    | some start => return start ++ suffix
    | none => failure

/-- A tag that stands here. -/
def tag? : NodeReader (Option String) := do
  match ← peek with
  | some (.tag t) =>
    drop
    return some (← tagOf t)
  | _ => return none

/-- An anchor and a tag that stand here, in either order. -/
def properties : NodeReader (Option String × Option String) := do
  match ← anchor? with
  | some a => return (some a, ← tag?)
  | none =>
    let t ← tag?
    if t.isSome then return (← anchor?, t) else return (none, none)

/-- Gives a node its anchor, which must be new. -/
def name (anchor : Option String) (n : Node) : NodeReader Node := do
  match anchor with
  | none => return n
  | some a =>
    if ((← get).anchors.lookup a).isSome then failure
    else
      modify fun s => { s with anchors := (a, n) :: s.anchors }
      return n

/-- The node that an alias refers to. -/
def aliased (a : String) : NodeReader Node := do
  match (← get).anchors.lookup a with
  | some n => return n
  | none => failure

end NodeReader

open NodeReader

/-- Where a node stands: which collections may start without brackets there. -/
inductive NodePlace where
  /-- Inside brackets. -/
  | flow
  /-- In a block. -/
  | block
  /-- In a mapping, where a sequence need not be indented. -/
  | inMapping
  deriving DecidableEq, Repr

mutual

/-- The node that starts here. -/
def node (place : NodePlace) : Nat → NodeReader Node
  | 0 => failure
  | fuel + 1 => do
    match ← peek with
    | some (.alias a) =>
      drop
      aliased a
    | _ =>
      let (anchor, tag) ← properties
      name anchor (← content place tag anchor.isSome fuel)

/-- The node behind its anchor and its tag. -/
def content (place : NodePlace) (tag : Option String) (anchored : Bool) :
    Nat → NodeReader Node
  | 0 => failure
  | fuel + 1 => do
    match ← peek with
    | some (.scalar plain text) =>
      drop
      return .scalar tag plain text
    | some .flowSequence =>
      drop
      return .sequence tag (← flowItems true fuel)
    | some .flowMapping =>
      drop
      return .mapping tag (← flowPairs true fuel)
    | some .blockEntry =>
      if place == .inMapping then return .sequence tag (← blockItems false fuel)
      else missing tag anchored
    | some .blockSequence =>
      if place != .flow then
        drop
        return .sequence tag (← blockItems true fuel)
      else missing tag anchored
    | some .blockMapping =>
      if place != .flow then
        drop
        return .mapping tag (← blockPairs fuel)
      else missing tag anchored
    | _ => missing tag anchored

/-- A node that is left out, which needs an anchor or a tag. -/
def missing (tag : Option String) (anchored : Bool) : NodeReader Node :=
  if anchored || tag.isSome then return .scalar tag true "" else failure

/-- The entries of a sequence in a block, with the end of the block or without one. -/
def blockItems (closed : Bool) : Nat → NodeReader (List Node)
  | 0 => failure
  | fuel + 1 => do
    if ← skip .blockEntry then
      let ends :=
        if closed then [.blockEntry, .blockEnd] else [.blockEntry, .key, .value, .blockEnd]
      let n ← if ← at? ends then pure Node.absent else node .block fuel
      return n :: (← blockItems closed fuel)
    else
      if closed then expect .blockEnd
      return []

/-- The entries of a mapping in a block. -/
def blockPairs : Nat → NodeReader (List (Node × Node))
  | 0 => failure
  | fuel + 1 => do
    let ends := [Token.key, .value, .blockEnd]
    if ← skip .key then
      let k ← if ← at? ends then pure Node.absent else node .inMapping fuel
      let v ←
        if ← skip .value then
          if ← at? ends then pure Node.absent else node .inMapping fuel
        else pure Node.absent
      return (k, v) :: (← blockPairs fuel)
    else
      expect .blockEnd
      return []

/-- The entries of a sequence in brackets. -/
def flowItems (first : Bool) : Nat → NodeReader (List Node)
  | 0 => failure
  | fuel + 1 => do
    if ← skip .flowSequenceEnd then return []
    else
      if !first then expect .flowEntry
      if ← skip .key then
        let k ← if ← at? [.value, .flowEntry, .flowSequenceEnd] then pure Node.absent
          else node .flow fuel
        let v ← flowValue .flowSequenceEnd fuel
        return .mapping none [(k, v)] :: (← flowItems false fuel)
      else if ← skip .flowSequenceEnd then return []
      else
        let n ← node .flow fuel
        return n :: (← flowItems false fuel)

/-- The value of a pair in brackets that such a token closes. -/
def flowValue (closing : Token) : Nat → NodeReader Node
  | 0 => failure
  | fuel + 1 => do
    if ← skip .value then
      if ← at? [.flowEntry, closing] then return Node.absent else node .flow fuel
    else return Node.absent

/-- The entries of a mapping in brackets. -/
def flowPairs (first : Bool) : Nat → NodeReader (List (Node × Node))
  | 0 => failure
  | fuel + 1 => do
    if ← skip .flowMappingEnd then return []
    else
      if !first then expect .flowEntry
      if ← skip .key then
        let k ← if ← at? [.value, .flowEntry, .flowMappingEnd] then pure Node.absent
          else node .flow fuel
        let v ← flowValue .flowMappingEnd fuel
        return (k, v) :: (← flowPairs false fuel)
      else if ← skip .flowMappingEnd then return []
      else
        let k ← node .flow fuel
        return (k, Node.absent) :: (← flowPairs false fuel)

end

/-- The directives from here. -/
def directives : Nat → Bool → NodeReader Bool
  | 0, _ => failure
  | fuel + 1, versioned => do
    match ← peek with
    | some .versionDirective =>
      if versioned then failure
      else
        drop
        let _ ← directives fuel true
        return true
    | some (.tagDirective handle start) =>
      drop
      if ((← get).handles.lookup handle).isSome then failure
      else
        modify fun s => { s with handles := (handle, start) :: s.handles }
        let _ ← directives fuel versioned
        return true
    | some .otherDirective =>
      drop
      let _ ← directives fuel versioned
      return true
    | _ => return false

/-- The handles that need no directive. -/
def commonHandles : List (String × String) := [("!", "!"), ("!!", "tag:yaml.org,2002:")]

/-- The node of a document that starts here, whose start is marked or not. -/
def documentNode (fuel : Nat) : NodeReader Node := do
  let directed ← directives fuel false
  modify fun s =>
    { s with handles := s.handles ++ commonHandles.filter (fun h => (s.handles.lookup h.1).isNone) }
  let marked ← skip .documentStart
  if directed && !marked then failure
  else if marked && (← endsHere) then return Node.absent
  else node .block fuel
where
  /-- Whether the document has no node. -/
  endsHere : NodeReader Bool := do
    return match ← peek with
      | none => true
      | some .documentStart => true
      | some .documentEnd => true
      | some .versionDirective => true
      | some .otherDirective => true
      | some (.tagDirective ..) => true
      | _ => false

/-- Leaves the marks of the document's end behind. -/
def documentEnds : Nat → NodeReader Unit
  | 0 => failure
  | fuel + 1 => do
    if ← skip .documentEnd then documentEnds fuel

/-- The node of the only document that the tokens hold, if they hold one. -/
def document? (ts : List Token) : Option (Option Node) :=
  if ts.isEmpty then some none
  else
    let fuel := 4 * ts.length + 8
    let reading : NodeReader Node := do
      let n ← documentNode fuel
      documentEnds fuel
      if (← peek).isSome then failure
      return n
    (reading.run ⟨ts, [], []⟩).map fun r => some r.1

end FormScaffold.Yaml
