import FormScaffold.Contract.Warning

/-!
# Form sections

The rows of an entity are read in order. A tab break and a section break each begin a section, a
column break moves on to the next column of the section, and data rows become its fields. The
section before the first break, and the one right after a tab break, are left out when they are
empty.

Main definitions: `Section` and `formSections`.
-/

namespace FormScaffold

/-- A section of the form. -/
structure FormSection where
  label : Option String
  fields : List Field
  tab : Option String
  collapsible : Bool

/-- The section as data. -/
def FormSection.toValue (s : FormSection) : Value :=
  .record [("label", .ofText? s.label), ("tab", .ofText? s.tab),
    ("collapsible", .bool s.collapsible), ("fields", .list (s.fields.map Field.toValue))]

/-- The section that is being filled. -/
structure OpenSection where
  label : Option String
  tab : Option String
  collapsible : Bool
  /-- Whether no section break began it, so that it is left out when empty. -/
  implicit : Bool
  /-- The column of the next field. -/
  column : Nat
  fields : List Field

namespace OpenSection

/-- Before the first row. -/
def start : OpenSection := ⟨none, none, false, true, 0, []⟩

/-- The section when it is complete, unless it is left out. -/
def close (s : OpenSection) : List FormSection :=
  if s.fields.isEmpty && s.implicit then []
  else [⟨s.label, s.fields, s.tab, s.collapsible⟩]

/-- The section that a tab break begins. -/
def ofTab (label : String) : OpenSection := ⟨none, some label, false, true, 0, []⟩

/-- The section that a section break begins on the same tab. -/
def ofBreak (s : OpenSection) (label : Option String) (collapsible : Bool) : OpenSection :=
  ⟨label, s.tab, collapsible, false, 0, []⟩

/-- The section with its next column open. -/
def nextColumn (s : OpenSection) : OpenSection := { s with column := s.column + 1 }

/-- The section with one more field. -/
def addField (s : OpenSection) (f : Field) : OpenSection := { s with fields := s.fields ++ [f] }

end OpenSection

/-- The name by which a break is called in a warning. -/
def breakName (raw : Entries) (place : Nat) : String :=
  ((raw.get "label").label? <|> (raw.get "fieldname").label?).getD ("position " ++ toString place)

/-- The warning about a break with a condition. -/
def breakWarning (raw : Entries) (place : Nat) : List Warning :=
  match raw.get "fieldtype" with
  | .text type =>
    if (type == tabBreak || type == sectionBreak) && (raw.get "depends_on").label?.isSome then
      [.conditionIgnored type (breakName raw place) (raw.get "fieldname").label?]
    else []
  | _ => []

/-- The label of a tab: its own, or that of the break's name, or that of its place. -/
def tabLabel (raw : Entries) (place : Nat) : Except Fault String :=
  match (raw.get "label").label? with
  | some s => .ok s
  | none => labelOfName ((raw.get "fieldname").orElse (.text ("tab_" ++ toString place)))

/-- What a row does to the form. -/
inductive RowKind where
  | tab
  | section
  | column
  /-- Another layout row, which does nothing. -/
  | layout
  | field
  /-- A data row without a usable name, which is left out. -/
  | unnamed
  deriving DecidableEq, Repr

/-- The kind of a row. -/
def RowKind.ofRow (raw : Entries) : Except Fault RowKind :=
  match raw.get "fieldtype" with
  | .text type =>
    if type == tabBreak then .ok .tab
    else if type == sectionBreak then .ok .section
    else if type == columnBreak then .ok .column
    else if layoutTypes.contains type then .ok .layout
    else .ok (if isNamed raw then .field else .unnamed)
  | type => do
    let _ ← type.key
    return if isNamed raw then .field else .unnamed

/-- One row more: the sections that it completes, the section that is open then, and the warnings
it gives. -/
def OpenSection.step (s : OpenSection) (raw : Entries) (place : Nat) :
    Except Fault (List FormSection × OpenSection × List Warning) := do
  match ← RowKind.ofRow raw with
  | .tab => return (s.close, .ofTab (← tabLabel raw place), breakWarning raw place)
  | .section =>
    return (s.close, s.ofBreak (raw.get "label").label? (raw.get "collapsible").flag,
      breakWarning raw place)
  | .column => return ([], s.nextColumn, [])
  | .field =>
    let f ← Field.describe raw s.column ""
    return ([], s.addField f, (droppedConditions raw (ownerOf "" raw)).map .dropped)
  | .layout => return ([], s, [])
  | .unnamed => return ([], s, [])

/-- The sections that rows make, the first of which has the given place. -/
def OpenSection.fill (s : OpenSection) (place : Nat) :
    List Value → Except Fault (List FormSection × List Warning)
  | [] => .ok (s.close, [])
  | v :: vs => do
    let raw ← v.entries
    let (closed, s, warnings) ← s.step raw place
    let (sections, more) ← s.fill (place + 1) vs
    return (closed ++ sections, warnings ++ more)

/-- The sections of the form and the warnings about its rows. -/
def formSections (rows : List Value) : Except Fault (List FormSection × List Warning) :=
  OpenSection.start.fill 0 rows

end FormScaffold
