import FormScaffold.Contract.Permission
import FormScaffold.Contract.Preset
import FormScaffold.Contract.Section
import FormScaffold.Contract.Workflow
import FormScaffold.Json.Printer

/-!
# Contracts

A contract says all that the views of an entity need: the columns and filters of its list, the
sections of its form, its child tables, permissions, workflow and client behaviour, and what was
passed over in its metadata.
-/

namespace FormScaffold

/-- The fields of the child entity of a table field. -/
structure ChildTable where
  entity : String
  fields : List Field
  /-- Whether the child entity was found. -/
  resolved : Bool

/-- The child table as data. -/
def ChildTable.toValue (t : ChildTable) : Value :=
  .record [("entityName", .text t.entity), ("fields", .list (t.fields.map Field.toValue)),
    ("resolved", .bool t.resolved)]

/-- Things under keys as data. -/
def Keyed.toValue {α : Type} (m : Keyed α) (f : α → Value) : Value :=
  .record (List.map (fun p => (Json.keyText p.1, f p.2)) m)

/-- What the views of an entity need. -/
structure Contract where
  entity : String
  preset : Preset
  columns : List Column
  filters : List Filter
  sections : List FormSection
  childTables : Keyed ChildTable
  permissions : Keyed Grants
  transitions : List Transition
  workflow : Option Workflow
  behaviors : List Behavior
  warnings : List Warning

namespace Contract

/-- The topic under which changes of the entity are announced. -/
def topic (c : Contract) : String := Naming.topic c.entity

/-- The fields of the form, in order. -/
def fields (c : Contract) : List Field := c.sections.flatMap (·.fields)

/-- The first field of the form with a name. -/
def field? (c : Contract) (name : Value) : Option Field := c.fields.find? (·.name.same name)

/-- The contract as data. -/
def toValue (c : Contract) : Value :=
  .record [("entityName", .text c.entity), ("stylePreset", .text c.preset.name),
    ("layout", c.preset.layout.toValue), ("listSection", .list (c.columns.map Column.toValue)),
    ("listFilters", .list (c.filters.map Filter.toValue)),
    ("formSections", .list (c.sections.map FormSection.toValue)),
    ("childTables", c.childTables.toValue ChildTable.toValue),
    ("permissions", c.permissions.toValue Grants.toValue),
    ("workflowActions", .list (c.transitions.map Transition.toValue)),
    ("workflow", (c.workflow.map Workflow.toValue).getD .null),
    ("clientBehaviors", .list (c.behaviors.map Behavior.toValue)),
    ("realtimeTopic", .text c.topic), ("warnings", .list (c.warnings.map Warning.toValue))]

end Contract

end FormScaffold
