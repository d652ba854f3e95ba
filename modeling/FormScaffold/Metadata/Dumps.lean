import FormScaffold.Files.Change
import FormScaffold.Json.Reader
import FormScaffold.Metadata.Memory
import FormScaffold.Naming
import FormScaffold.Text.Case
import FormScaffold.Text.Line
import FormScaffold.Yaml.Reader

/-!
# Metadata in a directory of dumps

A dump is a file with the schema of one entity, as JSON or as YAML. Its name is the slug of the
entity, the name of the entity, or that name in small letters with underscores for its spaces. The
first file that is there counts.

Main definitions: `Dumps`, `Dumps.candidates`, `Dumps.schema` and `Source.ofDumps`.
-/

namespace FormScaffold

/-- A directory of dumps in a file tree. -/
structure Dumps where
  tree : FileTree
  /-- The current directory. -/
  current : Location
  directory : Path

namespace Dumps

/-- The endings of dumps, in the order in which they are looked for. -/
def suffixes : List String := [".json", ".yaml", ".yml"]

/-- The names of the dumps of an entity, without their endings. -/
def stems (entity : String) : List String :=
  [Naming.slug entity, entity,
    String.ofList (Text.lower (entity.toList.map fun c => if c == ' ' then '_' else c))]

/-- The paths where the dump of an entity is looked for, in order. -/
def candidates (d : Dumps) (entity : String) : List Path :=
  (stems entity).flatMap fun stem => suffixes.map fun suffix => d.directory.join (stem ++ suffix)

/-- What stands at the end of a path. Only a path that is too long is a fault: others lead
nowhere. -/
def itemAt (d : Dumps) (p : Path) : Fetched (Option Item) :=
  match d.tree.find d.current p with
  | .ok found => .ok (some found.2)
  | .error .nameTooLong => .error (.fault (.path .nameTooLong))
  | .error _ => .ok none

/-- The first path that leads to a file, with the bytes of the file. -/
def firstFile (d : Dumps) : List Path → Fetched (Option (Path × ByteArray))
  | [] => .ok none
  | p :: ps => do
    match ← d.itemAt p with
    | some (.file bytes) => return some (p, bytes)
    | _ => d.firstFile ps

/-- The breaks of lines as line feeds. -/
def plainBreaks : List Char → List Char
  | [] => []
  | '\r' :: '\n' :: rest => '\n' :: plainBreaks rest
  | '\r' :: rest => '\n' :: plainBreaks rest
  | c :: rest => c :: plainBreaks rest

/-- The value that the text of a dump writes, in the format of its ending. -/
def valueOf (p : Path) (cs : List Char) : Except Yaml.Flaw Value :=
  if p.suffix == ".json" then
    match Json.read? cs with
    | some v => .ok v
    | none => .error .malformed
  else Yaml.read cs

/-- The schema in a dump. -/
def schemaOf (entity : String) (p : Path) (bytes : ByteArray) : Fetched Value := do
  match Text.ofUtf8? bytes with
  | none => .error (.fault .undecodable)
  | some s =>
    match valueOf p (plainBreaks s.toList) with
    | .error .malformed => .error (.error (.unreadable p.name entity))
    | .error (.fault f) => .error (.fault f)
    | .ok (.record es) => return .record es
    | .ok _ => .error (.error (.notSchema p.name entity))

/-- The schema of an entity. -/
def schema (d : Dumps) (entity : String) : Fetched Value := do
  if entity == "" then .error (.error .nameRequired)
  else match ← d.itemAt d.directory with
    | some .directory =>
      match ← d.firstFile (d.candidates entity) with
      | some (p, bytes) => schemaOf entity p bytes
      | none => .error (.error (.unknownEntity entity))
    | _ => .error (.error (.noDirectory d.directory.text entity))

end Dumps

/-- A source that reads the dumps of a directory, anew for every question. -/
def Source.ofDumps (d : Dumps) : Source where
  fetch part entity := do Fetched.ofUse (Schema.fetch (← d.schema entity) part)
  permissions entity := do Fetched.ofUse (Schema.permissions (← d.schema entity))

end FormScaffold
