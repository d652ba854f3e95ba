import FormScaffold.Metadata.Source

/-!
# Metadata held in memory

Schemas by entity name. A schema is a record with the fields, the overrides, the client scripts,
the workflow and a flat list of permission rules.

Main definitions: `Schema.fetch` and `Source.ofSchemas`.
-/

namespace FormScaffold

/-- A value when it counts as true, else an empty list. -/
def orEmpty (v : Value) : Value := v.orElse (.list [])

namespace Schema

/-- A part of a schema, as it stands there. -/
def fetch (schema : Value) (part : Part) : Except Fault Value := do
  let es ← schema.entries
  return match part with
    | .fieldList => orEmpty (es.get "fields")
    | .overrides => orEmpty ((es.get "overrides").orElse (es.get "property_setters"))
    | .clientBehavior => orEmpty (es.get "client_scripts")
    | .workflow => (es.get "workflow").orElse .null
    | .permissions => orEmpty (es.get "permissions")

/-- The permission rules of a schema by role. -/
def permissions (schema : Value) : Except Fault (Keyed (List Entries)) := do
  groupPermissions (← fetch schema .permissions)

end Schema

/-- The schema of an entity. -/
def findSchema (schemas : Value) (entity : String) : Fetched Value := do
  let es ← Fetched.ofUse ((schemas.orElse (.record [])).entries)
  match es.get entity with
  | .null => .error (.error (.unknownEntity entity))
  | schema => .ok schema

/-- A source that holds the schemas of its entities. -/
def Source.ofSchemas (schemas : Value) : Source where
  fetch part entity := do Fetched.ofUse (Schema.fetch (← findSchema schemas entity) part)
  permissions entity := do Fetched.ofUse (Schema.permissions (← findSchema schemas entity))

end FormScaffold
