import FormScaffold.Contract.Basic
import FormScaffold.Contract.Override
import FormScaffold.Metadata.Source

/-!
# Building a contract

A contract is built from what a source answers about an entity. The five questions about the entity
itself must all be answered; then the child entities of its table fields are asked for, each once.
A child that cannot be fetched leaves its tables unresolved.

Main definitions: `BuildError`, `childTables` and `Contract.build`.
-/

namespace FormScaffold

/-- Why an entity has no contract. -/
inductive BuildError where
  /-- The name of the entity is blank. -/
  | emptyName
  /-- No preset has the name. -/
  | unknownPreset (given : String)
  /-- The entity has no field that holds data. -/
  | noFields (entity : String)
  /-- The metadata cannot be fetched. -/
  | fetch (e : FetchError)
  /-- The metadata cannot be used. -/
  | fault (f : Fault)
  deriving DecidableEq, Repr

/-- A use of raw metadata while building. -/
def use {α : Type} (r : Except Fault α) : Asking BuildError α := .ofExcept (r.mapError .fault)

/-- The preset of a name, or of no name. -/
def resolvePreset (name : Option String) : Except BuildError Preset :=
  match Preset.ofName? (name.getD "") with
  | some p => .ok p
  | none => .error (.unknownPreset (name.getD "None"))

/-- How fetching a part of the entity itself fails: every fault is an error of the fetching. -/
def FetchFailure.ofPart (part : Part) (entity : String) : FetchFailure → BuildError
  | .error e => .fetch e
  | .fault _ => .fetch (.failed part entity)

/-- One of the questions about the entity itself. -/
def askPart (source : Source) (part : Part) (entity : String) : Asking BuildError Value :=
  .ask ⟨part, entity⟩ ((source.fetch part entity).mapError (·.ofPart part entity))

/-- The question about the permission rules of the entity itself. -/
def askPermissions (source : Source) (entity : String) :
    Asking BuildError (Keyed (List Entries)) :=
  .ask ⟨.permissions, entity⟩ ((source.permissions entity).mapError (·.ofPart .permissions entity))

/-- The fields of a child entity: raw fields, or why they cannot be fetched. A fault in what the
source found is passed on. -/
def askChild (source : Source) (child : String) : Asking BuildError (Except FetchError Value) :=
  .ask ⟨.fieldList, child⟩ <|
    match source.fetch .fieldList child with
    | .ok v => .ok (.ok v)
    | .error (.error e) => .ok (.error e)
    | .error (.fault f) => .error (.fault f)

/-- The raw fields of the child entities that were asked for; none where they cannot be fetched. -/
abbrev Children := List (String × Option Value)

/-- The fields of a child entity that was asked for before. -/
def Children.find? (cs : Children) (child : String) : Option (Option Value) :=
  (List.find? (·.1 == child) cs).map (·.2)

/-- The data fields of a child entity as described in the table field `owner`, and the warnings
about them. -/
def describeChild (owner : String) (raw : Value) : Except Fault (List Field × List Warning) := do
  let (rows, unnamed) ← splitRows 0 (← raw.elements)
  let fields ← rows.mapM fun row => Field.describe row 0 owner
  return (fields, unnamed.map (.unnamed owner) ++
    rows.flatMap fun row => (droppedConditions row (ownerOf owner row)).map .dropped)

/-- The child table of a table field and the warnings about its fields. -/
def childTable (field : Value) (child : String) (raw : Option Value) :
    Except Fault (ChildTable × List Warning) :=
  match raw with
  | none => .ok (⟨child, [], false⟩, [])
  | some v => do
    let (fields, warnings) ← describeChild (field.display ++ ".") v
    return (⟨child, fields, true⟩, warnings)

/-- The raw fields of a child entity: asked for, unless they were asked for before. -/
def findChild (source : Source) (children : Children) (child : String) (field : Value) :
    Asking BuildError (Option Value × Children × List Warning) :=
  match children.find? child with
  | some raw => pure (raw, children, [])
  | none => do
    match ← askChild source child with
    | .ok v => return (some v, children ++ [(child, some v)], [])
    | .error e =>
      return (none, children ++ [(child, none)], [.childUnresolved child e.message field])

/-- The child tables of the table fields among the rows, under the names of the fields. -/
def childTables (source : Source) (children : Children) (tables : Keyed ChildTable) :
    List Entries → Asking BuildError (Keyed ChildTable × List Warning)
  | [] => pure (tables, [])
  | row :: rows => do
    if ← use (hasType tableTypes (row.get "fieldtype")) then
      let field := row.get "fieldname"
      match (row.get "options").label? with
      | none =>
        let (tables, warnings) ← childTables source children tables rows
        return (tables, .tableWithoutOptions field :: warnings)
      | some child =>
        let (raw, children, asked) ← findChild source children child field
        let (table, described) ← use (childTable field child raw)
        let key ← use field.key
        let (tables, warnings) ← childTables source children (tables.put key table) rows
        return (tables, asked ++ described ++ warnings)
    else childTables source children tables rows

/-- What a source answers about an entity. -/
structure RawEntity where
  fields : Value
  overrides : Value
  scripts : Value
  workflow : Value
  permissions : Keyed (List Entries)

/-- The five questions about an entity. -/
def askEntity (source : Source) (entity : String) : Asking BuildError RawEntity := do
  let fields ← askPart source .fieldList entity
  let overrides ← askPart source .overrides entity
  let scripts ← askPart source .clientBehavior entity
  let workflow ← askPart source .workflow entity
  let permissions ← askPermissions source entity
  return ⟨fields, overrides, scripts, workflow, permissions⟩

/-- The rules of each role as a raw value. -/
def rulesAsValues (grouped : Keyed (List Entries)) : Keyed Value :=
  grouped.mapValues fun rules => .list (rules.map .record)

/-- The contract of an entity from what a source answered about it. -/
def assemble (source : Source) (entity : String) (preset : Preset) (raw : RawEntity) :
    Asking BuildError Contract := do
  let (rows, overrideWarnings) ← use (applyOverrides raw.fields raw.overrides)
  let (dataRows, unnamed) ← use (splitRows 0 (rows.map .record))
  if dataRows.isEmpty then .fail (.noFields entity)
  else
    let columns ← use (listColumns dataRows)
    let filters ← use (listFilters dataRows)
    let (sections, sectionWarnings) ← use (formSections (rows.map .record))
    let (tables, tableWarnings) ← childTables source [] [] dataRows
    let permissions ← use (mergePermissions (rulesAsValues raw.permissions))
    let (workflow, transitions, workflowWarnings) ← use (readWorkflow raw.workflow)
    let found ← use (behaviors raw.scripts (dataRows.map (·.get "fieldname")))
    return {
      entity, preset, columns, filters, sections
      childTables := tables
      permissions, transitions, workflow
      behaviors := found
      warnings := overrideWarnings ++ unnamed.map (.unnamed "") ++ sectionWarnings ++
        tableWarnings ++ workflowWarnings }

/-- The contract of an entity, with the calls that building it makes. -/
def Contract.asking (source : Source) (entity : String) (preset : Option String) :
    Asking BuildError Contract := do
  let entity := Text.strip entity
  if entity == "" then .fail .emptyName
  else
    let preset ← .ofExcept (resolvePreset preset)
    let raw ← askEntity source entity
    assemble source entity preset raw

/-- The contract of an entity in a named preset. -/
def Contract.build (source : Source) (entity : String) (preset : Option String) :
    Except BuildError Contract :=
  (Contract.asking source entity preset).outcome

end FormScaffold
