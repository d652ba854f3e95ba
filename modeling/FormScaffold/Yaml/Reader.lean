import FormScaffold.Json.Printer
import FormScaffold.Value.Fault
import FormScaffold.Yaml.Node
import FormScaffold.Yaml.Scalar

/-!
# Reading YAML

The value of a document: its scalars by their tags or their spelling, its sequences and its
mappings. A mapping may take over the entries of others under a key of its own; its own entries
count more, and of several others the first counts most. A scalar as a key is its text in JSON.

Main definition: `Yaml.read`.
-/

namespace FormScaffold.Yaml

/-- Why a document has no value. -/
inductive Flaw where
  /-- The document is not well formed, or a tag is unknown. -/
  | malformed
  /-- A scalar is not what its tag says. -/
  | fault (f : Fault)
  deriving DecidableEq, Repr

/-- Whether a character may stand in a document. -/
def isAllowed (c : Char) : Bool :=
  let n := c.toNat
  n == 9 || n == 0xA || n == 0xD || (0x20 ≤ n && n ≤ 0x7E) || n == 0x85 ||
    (0xA0 ≤ n && n ≤ 0xFFFD) || 0x10000 ≤ n

/-- The start of the tags of the common kinds. -/
def commonStart : String := "tag:yaml.org,2002:"

/-- The name of a common kind that a tag gives. -/
def commonName? (tag : String) : Option String :=
  let start := commonStart.toList
  if start.isPrefixOf tag.toList then some (String.ofList (tag.toList.drop start.length)) else none

/-- A tag that says something. -/
def tagSays? (tag : Option String) : Option String := tag.filter (· != "!")

/-- The kind of a scalar, by its tag or its spelling. -/
def kindOfScalar (tag : Option String) (plain : Bool) (s : String) : Except Flaw Kind :=
  match tagSays? tag with
  | none => .ok (if plain || tag.isSome then kindOfPlain s else .text)
  | some t =>
    match commonName? t with
    | some "null" => .ok .null
    | some "str" => .ok .text
    | some "timestamp" => .ok .text
    | some "merge" => .ok .merge
    | some "value" => .ok .bare
    | some "bool" =>
      let word := s.toList.map Char.toLower
      if ["yes", "true", "on"].any (·.toList == word) then .ok (.bool true)
      else if ["no", "false", "off"].any (·.toList == word) then .ok (.bool false)
      else .error (.fault .absentKey)
    | some "int" =>
      match wholeForm? s.toList with
      | some n => .ok (.whole n)
      | none => .error (.fault (.notWhole (String.ofList
          (Number.takeSign (s.toList.filter (· != '_'))).2)))
    | some "float" =>
      match realForm? s.toList, Number.readReal? (s.toList.filter (· != '_')) with
      | some x, _ => .ok (.real x)
      | none, some x => .ok (.real x)
      | none, none => .error .malformed
    | _ => .error .malformed

/-- The value of a scalar of a kind. -/
def Kind.value (s : String) : Kind → Except Flaw Value
  | .null => .ok .null
  | .bool b => .ok (.bool b)
  | .whole n => .ok (.int n)
  | .real x => .ok (.real x)
  | .text => .ok (.text s)
  | .merge => .error .malformed
  | .bare => .error .malformed

/-- Whether a collection may have the tag: its own one, or none. -/
def fits (tag : Option String) (kind : String) : Bool :=
  match tagSays? tag with
  | none => true
  | some t => commonName? t == some kind

/-- The key of an entry; none for the key of merging. -/
def entryKey? : Node → Except Flaw (Option String)
  | .scalar tag plain s => do
    match ← kindOfScalar tag plain s with
    | .merge => return none
    | .bare => return some s
    | k => return some (Json.keyText (← k.value s))
  | _ => .error .malformed

/-- The entries with others put into them. -/
def putAll (es others : Entries) : Entries := others.foldl (fun es e => es.put e.1 e.2) es

mutual

/-- The value of a node. -/
def valueOf : Node → Except Flaw Value
  | .scalar tag plain s => do (← kindOfScalar tag plain s).value s
  | .sequence tag items => do
    if fits tag "seq" then return .list (← valuesOf items) else .error .malformed
  | .mapping tag pairs => do
    let (merged, own) ← entriesOf pairs
    if fits tag "map" then return .record (putAll (putAll [] merged) own) else .error .malformed

/-- The values of nodes. -/
def valuesOf : List Node → Except Flaw (List Value)
  | [] => .ok []
  | n :: ns => do return (← valueOf n) :: (← valuesOf ns)

/-- The entries that pairs take over, and those that they have. -/
def entriesOf : List (Node × Node) → Except Flaw (Entries × Entries)
  | [] => .ok ([], [])
  | (k, n) :: rest => do
    match ← entryKey? k with
    | none =>
      let more ← mergedOf n
      let (merged, own) ← entriesOf rest
      return (more ++ merged, own)
    | some key =>
      let v ← valueOf n
      let (merged, own) ← entriesOf rest
      return (merged, (key, v) :: own)

/-- The entries of a mapping, or of a sequence of mappings, that are taken over. -/
def mergedOf : Node → Except Flaw Entries
  | .mapping _ pairs => do
    let (merged, own) ← entriesOf pairs
    return merged ++ own
  | .sequence _ items => mergedOfItems items
  | _ => .error .malformed

/-- The entries of mappings that are taken over: the later mappings first. -/
def mergedOfItems : List Node → Except Flaw Entries
  | [] => .ok []
  | .mapping _ pairs :: rest => do
    let (merged, own) ← entriesOf pairs
    return (← mergedOfItems rest) ++ merged ++ own
  | _ => .error .malformed

end

/-- The value of the document that a text holds; null when it holds none. -/
def read (cs : List Char) : Except Flaw Value := do
  if !cs.all isAllowed then .error .malformed
  else match (tokens? cs).bind document? with
    | none => .error .malformed
    | some none => return .null
    | some (some n) => valueOf n

end FormScaffold.Yaml
