import FormScaffold.View.Module
import FormScaffold.View.Page.FormTemplate
import FormScaffold.View.Page.ListTemplate

/-!
# Pages of an entity

An entity has a list page and a form page. The constants of a page are regions, so they follow the
metadata; the component around them is generated once and then belongs to the editor of the file.
Each field type is edited by one control; field types that are not known are edited by the generic
fallback control.

Main definitions: `control`, `listPage` and `formPage`.
-/

namespace FormScaffold.View

/-! ## Controls -/

/-- The control of a field type that is not known. -/
def fallbackControl : String := "fallback"

/-- The controls of the field types that are known. -/
def controls : List (String × String) :=
  [("Data", "text"), ("Small Text", "textarea"), ("Text", "textarea"), ("Long Text", "textarea"),
    ("Text Editor", "textarea"), ("Markdown Editor", "textarea"), ("HTML Editor", "textarea"),
    ("Code", "code"), ("JSON", "code"), ("Int", "number"), ("Float", "number"),
    ("Currency", "number"), ("Percent", "number"), ("Rating", "number"), ("Check", "checkbox"),
    ("Select", "select"), ("Autocomplete", "select"), ("Link", "link"), ("Dynamic Link", "link"),
    ("Date", "date"), ("Datetime", "datetime"), ("Time", "time"), ("Duration", "number"),
    ("Attach", "attach"), ("Attach Image", "attach"), ("Image", "image"),
    ("Password", "password"), ("Phone", "text"), ("Color", "color"), ("Read Only", "readonly"),
    ("Barcode", "text"), ("Signature", "attach"), ("Geolocation", "code"), ("Icon", "text"),
    ("HTML", "html"), ("Heading", "heading"), ("Button", "button"), ("Table", "table"),
    ("Table MultiSelect", "table")]

/-- The control of a field type, when the type is known. -/
def control? (fieldType : String) : Option String :=
  (controls.find? (·.1 == fieldType)).map (·.2)

/-- The control that edits a field type. -/
def control (fieldType : String) : String := (control? fieldType).getD fallbackControl

/-! ## What both pages share -/

/-- The comment at the top of a page. -/
def pageHeader (names : Names) (kind : String) : String :=
  "/**\n * " ++ commentLine names.entity ++ " " ++ kind ++ " view.\n" ++
    " * Code outside the doctype-ui regions is yours to edit; regions are regenerated.\n */\n"

/-- The warning about a field whose type is not known. -/
def unknownType (path region : String) (field : Value) (type : String) : ViewWarning :=
  ⟨path, "Unrecognized field type '" ++ type ++ "' rendered with the generic fallback control",
    region, field⟩

/-- The warning about a field of the type, if the type is not known. -/
def typeWarning (path region : String) (field : Value) (type : String) : Option ViewWarning :=
  if (control? type).isNone then some (unknownType path region field type) else none

/-- Whether a default is worth stating: nothing and the empty text are not. -/
def isStated (v : Value) : Bool := !(v.same .null || v.same (.text ""))

/-! ## The list page -/

/-- The path of the list page. -/
def listPath (names : Names) : String :=
  filePath names.language ("pages/" ++ names.slug ++ "/List")

/-- A column as data, with its control. -/
def columnSpec (c : Column) : Value :=
  .record [("fieldName", c.name), ("fieldType", .text c.type), ("label", .text c.label),
    ("control", .text (control c.type))]

/-- The defaults of the filters that state one. -/
def filterDefaults (c : Contract) : Value :=
  (Keyed.ofList ((c.filters.filter fun f => isStated f.default).map fun f =>
    (f.name, f.default))).toValue id

/-- The settings of the list page. -/
def listConfig (names : Names) (c : Contract) (layout : Layout) : Value :=
  .record [("doctype", .text names.entity), ("route", .text (route names)),
    ("pageSize", .ofNat layout.pageSize), ("spacing", .text layout.spacing),
    ("realtimeTopic", .text c.topic)]

/-- What the list page imports. -/
def listImports : String :=
  joinLines
    ["import \x7b createElement as h, useCallback, useEffect, useState \x7d from 'react';",
      "import \x7b resource, LIST_FIELDS \x7d from './resource';",
      "import \x7b useRealtime \x7d from './realtime';",
      ""]

/-- The component of the list page. -/
def listComponent (names : Names) : String :=
  typed names.language (listHead ++ names.component ++ listTail)

/-- The text of the list page. -/
def listContent (names : Names) (c : Contract) (layout : Layout) : String :=
  pageHeader names "list" ++ Region.wrap "imports" listImports ++ "\n" ++
    Region.wrap "columns" (constant "COLUMNS" (Json.block (.list (c.columns.map columnSpec)))) ++
    "\n" ++
    Region.wrap "filter-defaults" (joinLines
      [constant "FILTER_FIELDS" (Json.block (.list (c.filters.map Filter.toValue))),
        constant "FILTER_DEFAULTS" (Json.block (filterDefaults c))]) ++ "\n" ++
    Region.wrap "list-config"
      (constant "LIST_CONFIG" (Json.block (listConfig names c layout))) ++
    listComponent names

/-- The warnings about the columns of the list page. -/
def listWarnings (names : Names) (c : Contract) : List ViewWarning :=
  c.columns.filterMap fun col => typeWarning (listPath names) "columns" col.name col.type

/-- The list page. -/
def listPage (names : Names) (c : Contract) (layout : Layout) : Artifact :=
  .ofContent (listPath names) (listContent names c layout) (listWarnings names c)

/-! ## The form page -/

/-- The path of the form page. -/
def formPath (names : Names) : String :=
  filePath names.language ("pages/" ++ names.slug ++ "/Form")

/-- A field as data, edited by a control; a description is there only when the field has one. -/
def fieldSpec (f : Field) (control : String) : Value :=
  .record ([("fieldName", f.name), ("fieldType", .text f.type), ("label", .text f.label),
    ("control", .text control), ("options", .ofText? f.options), ("column", .ofNat f.column)] ++
    (f.description.map fun d => ("description", Value.text d)).toList)

/-- How many columns the fields of a section take. -/
def columnCount (s : FormSection) : Nat := (s.fields.map (·.column)).foldl max 0 + 1

/-- A section as data. -/
def sectionSpec (s : FormSection) : Value :=
  .record [("label", .ofText? s.label), ("tab", .ofText? s.tab),
    ("collapsible", .bool s.collapsible), ("columns", .ofNat (columnCount s)),
    ("fields", .list (s.fields.map fun f => fieldSpec f (control f.type)))]

/-- The control of a field of a child table; a table inside a table is only a link. -/
def childControl (type : String) : String :=
  if tableTypes.contains type then "link" else control type

/-- A child table as data. -/
def childSpec (t : ChildTable) : Value :=
  .record [("doctype", .text t.entity), ("resolved", .bool t.resolved),
    ("fields", .list (t.fields.map fun f => fieldSpec f (childControl f.type)))]

/-- The defaults of the fields that state one; tables have none. -/
def formDefaults (c : Contract) : Value :=
  (Keyed.ofList ((c.fields.filter fun f => isStated f.default && !tableTypes.contains f.type).map
    fun f => (f.name, f.default))).toValue id

/-- The workflow as data. -/
def workflowSpec (c : Contract) : Value :=
  .record [("stateField", .ofText? (c.workflow.map (·.stateField))),
    ("actions", .list ((bindings c.transitions).map (·.2.toValue)))]

/-- The settings of the form page. -/
def formConfig (names : Names) (c : Contract) (layout : Layout) : Value :=
  .record [("doctype", .text names.entity), ("route", .text (route names)),
    ("columns", .ofNat layout.columns), ("spacing", .text layout.spacing),
    ("realtimeTopic", .text c.topic), ("defaults", formDefaults c)]

/-- What the form page imports. -/
def formImports (names : Names) : String :=
  joinLines
    ["import \x7b createElement as h, useCallback, useEffect, useMemo, useRef, useState \x7d from 'react';",
      "import \x7b getFieldState, getChildFieldState \x7d from './depends';",
      "import \x7b createForm, runFieldChange, runFormEvent \x7d from './behavior';",
      "import \x7b useRealtime \x7d from './realtime';",
      "import \x7b availableActions, can, createRecord, getRecord, runWorkflowAction, updateRecord \x7d from '../../actions/" ++
        names.slug ++ "';",
      ""]

/-- The component of the form page. -/
def formComponent (names : Names) : String :=
  typed names.language (formHead ++ names.component ++ formTail)

/-- The text of the form page. -/
def formContent (names : Names) (c : Contract) (layout : Layout) : String :=
  pageHeader names "form" ++ Region.wrap "imports" (formImports names) ++ "\n" ++
    Region.wrap "sections"
      (constant "SECTIONS" (Json.block (.list (c.sections.map sectionSpec)))) ++ "\n" ++
    Region.wrap "child-tables"
      (constant "CHILD_TABLES" (Json.block (c.childTables.toValue childSpec))) ++ "\n" ++
    Region.wrap "workflow-buttons" (constant "WORKFLOW" (Json.block (workflowSpec c))) ++ "\n" ++
    Region.wrap "form-config"
      (constant "FORM_CONFIG" (Json.block (formConfig names c layout))) ++
    formComponent names

/-- The warnings about the fields of the form. -/
def fieldWarnings (names : Names) (c : Contract) : List ViewWarning :=
  c.fields.filterMap fun f => typeWarning (formPath names) "sections" f.name f.type

/-- The warnings about the fields of child tables. -/
def childWarnings (names : Names) (c : Contract) : List ViewWarning :=
  List.flatMap (fun p => p.2.fields.filterMap fun f =>
    typeWarning (formPath names) "child-tables"
      (.text (p.1.display ++ "." ++ f.name.display)) f.type) c.childTables

/-- The form page. -/
def formPage (names : Names) (c : Contract) (layout : Layout) : Artifact :=
  .ofContent (formPath names) (formContent names c layout)
    (fieldWarnings names c ++ childWarnings names c)

end FormScaffold.View
