import FormScaffold.Contract.Permission
import FormScaffold.Metadata.Traced

/-!
# Metadata sources

A source answers five questions about an entity: its fields, the overrides of its fields, its
client scripts, its workflow and its permission rules. What it answers is raw. A source may also be
asked for the fields of a child entity.

Main definitions: `FetchError`, `Source`, and `Asking`, a computation that asks a source and
remembers in order what it asked.
-/

namespace FormScaffold

/-- The questions that a source answers about an entity. -/
inductive Part where
  | fieldList
  | overrides
  | clientBehavior
  | workflow
  | permissions
  deriving DecidableEq, Repr

/-- A part in words. -/
def Part.phrase : Part → String
  | .fieldList => "field list"
  | .overrides => "overrides"
  | .clientBehavior => "client behavior"
  | .workflow => "workflow"
  | .permissions => "permissions"

/-- Why metadata cannot be fetched. -/
inductive FetchError where
  /-- The source does not know the entity. -/
  | unknownEntity (entity : String)
  /-- No entity was named. -/
  | nameRequired
  /-- The directory of dumps does not exist. -/
  | noDirectory (directory entity : String)
  /-- A dump cannot be read. -/
  | unreadable (file entity : String)
  /-- A dump holds something else than a record. -/
  | notSchema (file entity : String)
  /-- A fault stopped the fetching of a part. -/
  | failed (part : Part) (entity : String)
  /-- The site answered a request with a status that means failure. -/
  | status (path : String) (code : Nat) (entity : String)
  /-- The site cannot be reached. -/
  | unreachable (reason entity : String)
  /-- The site's answer is no JSON. -/
  | invalidJson (path entity : String)
  /-- The site's answer is no record but something of another kind. -/
  | unexpectedResponse (path kind entity : String)
  /-- The site's listing is no list. -/
  | unexpectedListing (docType entity : String)
  /-- No source is configured. -/
  | unconfigured
  deriving DecidableEq, Repr

namespace FetchError

/-- The error in words. -/
def message : FetchError → String
  | unknownEntity entity => "Unknown entity '" ++ entity ++ "'"
  | nameRequired => "Entity name is required"
  | noDirectory directory _ => "Metadata directory not found: " ++ directory
  | unreadable file _ => "Failed to read " ++ file
  | notSchema file _ => file ++ " does not hold a schema object"
  | failed part _ => "Failed to fetch " ++ part.phrase
  | status path code _ =>
    "Metadata request " ++ path ++ " failed with HTTP " ++ toString code
  | unreachable reason _ => "Metadata source unreachable: " ++ reason
  | invalidJson path _ => "Invalid JSON from " ++ path
  | unexpectedResponse path kind _ =>
    "Unexpected response from " ++ path ++ ": expected a JSON object, got " ++ kind
  | unexpectedListing docType _ =>
    "Unexpected " ++ docType ++ " listing: expected a JSON list"
  | unconfigured => "No metadata source configured (set METADATA_DIR or FRAPPE_URL)"

/-- The entity that was asked for. -/
def entity? : FetchError → Option String
  | unknownEntity entity => some entity
  | nameRequired => none
  | noDirectory _ entity => some entity
  | unreadable _ entity => some entity
  | notSchema _ entity => some entity
  | failed _ entity => some entity
  | status _ _ entity => some entity
  | unreachable _ entity => some entity
  | invalidJson _ entity => some entity
  | unexpectedResponse _ _ entity => some entity
  | unexpectedListing _ entity => some entity
  | unconfigured => none

/-- Whether the cause lies in a reader or a fault that is not worded here. -/
def isOpaque : FetchError → Bool
  | unreadable .. => true
  | failed .. => true
  | invalidJson .. => true
  | _ => false

end FetchError

/-- How fetching fails: with an error of the source, or with a fault in what it found. -/
inductive FetchFailure where
  | error (e : FetchError)
  | fault (f : Fault)
  deriving DecidableEq, Repr

/-- What fetching gives. -/
abbrev Fetched (α : Type) := Except FetchFailure α

/-- A use of a raw value while fetching. -/
def Fetched.ofUse {α : Type} (r : Except Fault α) : Fetched α := r.mapError .fault

/-- A source of metadata. -/
structure Source where
  /-- The raw answer to a question about an entity, for all parts but the permissions. -/
  fetch : Part → String → Fetched Value
  /-- The permission rules of an entity by role. -/
  permissions : String → Fetched (Keyed (List Entries))

/-- A question that was asked. -/
structure Call where
  part : Part
  entity : String
  deriving DecidableEq, Repr

/-- A computation that asks a source. -/
abbrev Asking (ε α : Type) := Traced Call ε α

end FormScaffold
