import FormScaffold.Contract.Field

/-!
# Warnings about metadata

What is wrong with the metadata of an entity without keeping it from being compiled. A warning has
a code, a text, and mostly the field that it is about.
-/

namespace FormScaffold

/-- Something in the metadata that was passed over. -/
inductive Warning where
  /-- An override of a field that does not exist. -/
  | unknownOverride (field : Value)
  /-- A dependency expression that cannot be read. -/
  | dropped (d : Dropped)
  /-- A row that holds data and has no name. -/
  | unnamed (owner : String) (place : Nat)
  /-- A break with a condition. -/
  | conditionIgnored (type name : String) (field : Option String)
  /-- A table field without a child entity. -/
  | tableWithoutOptions (field : Value)
  /-- A child entity that cannot be fetched. -/
  | childUnresolved (child reason : String) (field : Value)
  /-- A workflow transition that lacks a state or its action. -/
  | incompleteTransition (place : Nat)
  deriving Repr

namespace Warning

/-- The code of the warning. -/
def code : Warning → String
  | unknownOverride _ => "unknown_override_field"
  | dropped _ => "expression_parse_error"
  | unnamed .. => "missing_fieldname"
  | conditionIgnored .. => "layout_condition_ignored"
  | tableWithoutOptions _ => "table_without_options"
  | childUnresolved .. => "child_table_unresolved"
  | incompleteTransition _ => "incomplete_transition"

/-- The warning in words. -/
def message : Warning → String
  | unknownOverride field =>
    "Override targets unknown field '" ++ field.display ++ "' and was ignored"
  | dropped d => d.kind.attributeName ++ " dropped: " ++ d.error.text
  | unnamed owner place =>
    owner ++ "field at position " ++ toString place ++ " has no fieldname and was skipped"
  | conditionIgnored type name _ =>
    "depends_on on " ++ type ++ " '" ++ name ++
      "' is not applied; its fields are always shown"
  | tableWithoutOptions _ => "Table field does not name its child entity"
  | childUnresolved child reason _ =>
    "Child entity '" ++ child ++ "' could not be fetched: " ++ reason
  | incompleteTransition place =>
    "Workflow transition at position " ++ toString place ++
      " is missing state, action or next_state"

/-- The field that the warning is about. -/
def field : Warning → Value
  | unknownOverride field => field
  | dropped d => .text d.owner
  | unnamed .. => .null
  | conditionIgnored _ _ field => .ofText? field
  | tableWithoutOptions field => field
  | childUnresolved _ _ field => field
  | incompleteTransition _ => .null

/-- The warning as data. -/
def toValue (w : Warning) : Value :=
  .record [("code", .text w.code), ("message", .text w.message), ("field", w.field)]

end Warning

end FormScaffold
