import FormScaffold.Contract.Permission

/-!
# Customisations of an entity

A site keeps changes to an entity in rows of their own: property setters, each for one attribute of
one field; custom fields, each placed after another field; and permission rows with checkboxes.
This module turns them into the patches, fields and rules that the rest of the library reads.

Main definitions: `patchesOfSetters`, `insertCustomFields` and `ruleOfPermissionRow`.
-/

namespace FormScaffold

/-! ## Property setters -/

/-- The types of properties that are whole numbers. -/
def intPropertyTypes : List String := ["Check", "Int"]

/-- The types of properties that are floating numbers. -/
def realPropertyTypes : List String := ["Float", "Currency", "Percent"]

/-- A value as a whole number, where it has or writes one. -/
def coerceInt (v : Value) : Except Fault Value :=
  match v.toInt with
  | .ok n => .ok (.int n)
  | .error .endless => .error .endless
  | .error _ => .ok v

/-- A value as a floating number, where it has or writes one; a whole number may be too large. -/
def coerceReal (v : Value) : Except Fault Value :=
  match v, v.toReal? with
  | .int _, some (.infinite _) => .error .endless
  | _, some x => .ok (.real x)
  | _, none => .ok v

/-- The value of a property in the type that is declared for it. -/
def coerceProperty (v type : Value) : Except Fault Value :=
  match v, type with
  | .null, _ => .ok .null
  | v, .text t =>
    if intPropertyTypes.contains t then coerceInt v
    else if realPropertyTypes.contains t then coerceReal v
    else .ok v
  | v, _ => .ok v

/-- One attribute more in the patch of a field; a new patch starts with the name of the field. -/
def addToPatch (patches : Keyed Entries) (field : Value) (property : String) (v : Value) :
    Keyed Entries :=
  patches.put field (Entries.put ((patches.get? field).getD [("fieldname", field)]) property v)

/-- The patches after one row more; a row without a field or a property is left out. -/
def addSetter (patches : Keyed Entries) (row : Value) : Except Fault (Keyed Entries) := do
  let es ← row.entries
  let field := es.get "field_name"
  let property := es.get "property"
  if !field.truthy || !property.truthy then return patches
  else
    let field ← field.key
    let v ← coerceProperty (es.get "value") (es.get "property_type")
    return addToPatch patches field (← property.entryName) v

/-- The patches of the fields that the rows name, one a field, in order of first mention. -/
def patchesOfSetters (rows : List Value) : Except Fault (List Entries) := do
  return List.map (·.2) (← rows.foldlM addSetter [])

/-! ## Custom fields -/

/-- The rows with one more right after the first one of a name, if there is one. -/
def insertAfter? (anchor : Value) (custom : Value) : List Value → Except Fault (Option (List Value))
  | [] => .ok none
  | v :: vs => do
    let es ← v.entries
    if (es.get "fieldname").same anchor then return some (v :: custom :: vs)
    else return (← insertAfter? anchor custom vs).map (v :: ·)

/-- The rows with a custom field: after the field that it names, else at the end. -/
def insertCustomField (rows : List Value) (custom : Value) : Except Fault (List Value) := do
  let anchor := (← custom.entries).get "insert_after"
  if anchor.truthy then return (← insertAfter? anchor custom rows).getD (rows ++ [custom])
  else return rows ++ [custom]

/-- The fields with the custom fields, inserted one after another. -/
def insertCustomFields (fields customs : List Value) : Except Fault (List Value) :=
  customs.foldlM insertCustomField fields

/-! ## Permission rows -/

/-- The rule that a row with checkboxes makes: a box that is not ticked neither grants nor
denies. -/
def ruleOfPermissionRow (v : Value) : Except Fault Entries := do
  let row ← v.entries
  let level ← ((row.get "permlevel").orElse (.int 0)).toInt
  return [("role", row.get "role"), ("permlevel", .int level)] ++
    (if (row.get "if_owner").truthy then [("if_owner", .int 1)] else []) ++
    (Capability.all.filter fun c => (row.get c.word).truthy).map fun c => (c.word, .int 1)

end FormScaffold
