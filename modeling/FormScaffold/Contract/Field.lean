import FormScaffold.Value.Basic
import FormScaffold.Expression.Parser
import FormScaffold.Naming
import FormScaffold.Value.Fault

/-!
# Fields

A raw field is a record of attributes. Layout breaks are raw fields too, but hold no data. A data
field with a usable name is described for the form by a `Field`, whose dependency expressions are
only those that can be read.

Main definitions: `Field`, `Field.describe`, `dataRows`, `Column` and `Filter`.
-/

namespace FormScaffold

/-- The type of a row that begins a section. -/
def sectionBreak : String := "Section Break"

/-- The type of a row that begins a column. -/
def columnBreak : String := "Column Break"

/-- The type of a row that begins a tab. -/
def tabBreak : String := "Tab Break"

/-- The types of the rows that lay out the form and hold no data. -/
def layoutTypes : List String := [sectionBreak, columnBreak, tabBreak, "Fold"]

/-- The types of the fields that hold rows of a child entity. -/
def tableTypes : List String := ["Table", "Table MultiSelect"]

/-- The three attributes that hold a dependency expression. -/
inductive Dependency where
  /-- Whether the field is shown. -/
  | shown
  /-- Whether the field is required. -/
  | mandatory
  /-- Whether the field is locked. -/
  | readOnly
  deriving DecidableEq, Repr

namespace Dependency

/-- All three, in the order in which they are read. -/
def all : List Dependency := [shown, mandatory, readOnly]

/-- The attribute of a raw field. -/
def attributeName : Dependency → String
  | shown => "depends_on"
  | mandatory => "mandatory_depends_on"
  | readOnly => "read_only_depends_on"

/-- The key in data. -/
def key : Dependency → String
  | shown => "dependsOn"
  | mandatory => "mandatoryDependsOn"
  | readOnly => "readOnlyDependsOn"

end Dependency

/-- A dependency expression as its text and what the text writes. -/
structure Condition where
  text : String
  expression : Expression
  parseText_text : Expression.parseText text = .ok expression

/-- The dependency expressions of a field. -/
structure Conditions where
  shown : Option Condition
  mandatory : Option Condition
  readOnly : Option Condition

/-- The expression of one kind. -/
def Conditions.get (c : Conditions) : Dependency → Option Condition
  | .shown => c.shown
  | .mandatory => c.mandatory
  | .readOnly => c.readOnly

/-- A data field of the form or of a child entity. -/
structure Field where
  name : Value
  type : String
  label : String
  required : Bool
  readOnly : Bool
  hidden : Bool
  options : Option String
  default : Value
  description : Option String
  column : Nat
  conditions : Conditions

/-- The dependency expressions that the field has, with their kinds. -/
def Field.dependencies (f : Field) : List (Dependency × Condition) :=
  Dependency.all.filterMap fun d => (f.conditions.get d).map fun c => (d, c)

/-- The field as data; an expression is there only when the field has it. -/
def Field.toValue (f : Field) : Value :=
  .record ([("fieldName", f.name), ("fieldType", .text f.type), ("label", .text f.label),
    ("required", .bool f.required), ("readOnly", .bool f.readOnly), ("hidden", .bool f.hidden),
    ("options", .ofText? f.options), ("default", f.default),
    ("description", .ofText? f.description), ("column", .ofNat f.column)] ++
    f.dependencies.map fun d => (d.1.key, .text d.2.text))

/-- An expression that was dropped because it cannot be read. -/
structure Dropped where
  kind : Dependency
  error : Expression.ParseError
  /-- The field, with the table field before it when the field is a child's. -/
  owner : String
  deriving Repr

/-- The expression of one kind in a raw field: kept, dropped, or absent. -/
def checkCondition (raw : Entries) (owner : String) (d : Dependency) :
    Option Condition × Option Dropped :=
  match (raw.get d.attributeName).label? with
  | none => (none, none)
  | some s =>
    match h : Expression.parseText s with
    | .ok e => (some ⟨s, e, h⟩, none)
    | .error e => (none, some ⟨d, e, owner⟩)

/-- The expressions of a raw field that can be read. -/
def checkedConditions (raw : Entries) (owner : String) : Conditions :=
  ⟨(checkCondition raw owner .shown).1, (checkCondition raw owner .mandatory).1,
    (checkCondition raw owner .readOnly).1⟩

/-- The expressions of a raw field that were dropped. -/
def droppedConditions (raw : Entries) (owner : String) : List Dropped :=
  Dependency.all.filterMap fun d => (checkCondition raw owner d).2

/-- The type of a raw field. -/
def typeOf (raw : Entries) : String := ((raw.get "fieldtype").label?).getD "Data"

/-- The label that the name of a field gives. -/
def labelOfName : Value → Except Fault String
  | .text s => .ok (Naming.label s)
  | _ => .error .notText

/-- The label of a raw field: its own, or that of its name. -/
def labelOf (raw : Entries) : Except Fault String :=
  match (raw.get "label").label? with
  | some s => .ok s
  | none => labelOfName (raw.get "fieldname")

/-- The name of a raw field in messages. -/
def ownerOf (owner : String) (raw : Entries) : String := owner ++ (raw.get "fieldname").display

/-- The description of a raw field in a column of the form. -/
def Field.describe (raw : Entries) (column : Nat) (owner : String) : Except Fault Field := do
  return {
    name := raw.get "fieldname"
    type := typeOf raw
    label := ← labelOf raw
    required := (raw.get "reqd").flag
    readOnly := (raw.get "read_only").flag
    hidden := (raw.get "hidden").flag
    options := (raw.get "options").label?
    default := raw.get "default"
    description := (raw.get "description").label?
    column
    conditions := checkedConditions raw (ownerOf owner raw) }

/-- Whether a raw type is one of a few; a type that cannot be a key is a fault. -/
def hasType (types : List String) (type : Value) : Except Fault Bool := do
  match ← type.key with
  | .text s => return types.contains s
  | _ => return false

/-- Whether a raw field has a usable name. -/
def isNamed (raw : Entries) : Bool := (raw.get "fieldname").label?.isSome

/-- The rows that hold data and have a usable name, with the places of those that have none;
the first row has the given place. -/
def splitRows (place : Nat) : List Value → Except Fault (List Entries × List Nat)
  | [] => .ok ([], [])
  | v :: vs => do
    let raw ← v.entries
    let isLayout ← hasType layoutTypes (raw.get "fieldtype")
    let (rows, unnamed) ← splitRows (place + 1) vs
    if isLayout then return (rows, unnamed)
    else if isNamed raw then return (raw :: rows, unnamed)
    else return (rows, place :: unnamed)

/-- A column of the list view. -/
structure Column where
  name : Value
  type : String
  label : String
  deriving Repr

/-- The column as data. -/
def Column.toValue (c : Column) : Value :=
  .record [("fieldName", c.name), ("fieldType", .text c.type), ("label", .text c.label)]

/-- A filter of the list view. -/
structure Filter where
  name : Value
  type : String
  label : String
  options : Option String
  default : Value
  deriving Repr

/-- The filter as data. -/
def Filter.toValue (f : Filter) : Value :=
  .record [("fieldName", f.name), ("fieldType", .text f.type), ("label", .text f.label),
    ("options", .ofText? f.options), ("default", f.default)]

/-- A row of the list view with the place where it is to be shown. -/
structure Placed where
  index : Int
  place : Nat
  raw : Entries
  deriving Repr

/-- Whether one row comes before or with another. -/
def Placed.le (a b : Placed) : Bool :=
  a.index < b.index || (a.index == b.index && a.place ≤ b.place)

/-- The rows shown in the list, with the index each asks for, or its place where it asks for none;
the first row has the given place. -/
def placeRows (place : Nat) : List Entries → Except Fault (List Placed)
  | [] => .ok []
  | raw :: rows => do
    if (raw.get "in_list_view").flag then
      let index ← (raw.get "idx").toIntOr place
      return ⟨index, place, raw⟩ :: (← placeRows (place + 1) rows)
    else placeRows (place + 1) rows

/-- The columns of the list view, in the order of their indices. -/
def listColumns (rows : List Entries) : Except Fault (List Column) := do
  ((← placeRows 0 rows).mergeSort Placed.le).mapM fun p => do
    return ⟨p.raw.get "fieldname", typeOf p.raw, ← labelOf p.raw⟩

/-- The filters of the list view, in the order of the rows. -/
def listFilters (rows : List Entries) : Except Fault (List Filter) :=
  (rows.filter fun raw => (raw.get "in_standard_filter").flag).mapM fun raw => do
    return ⟨raw.get "fieldname", typeOf raw, ← labelOf raw, (raw.get "options").label?,
      raw.get "default"⟩

end FormScaffold
