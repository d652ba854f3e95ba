import FormScaffold.Number.Shortest
import FormScaffold.Text.Blank
import FormScaffold.Text.Quoted
import FormScaffold.Value.Basic

/-!
# Values as words

How a value reads inside a label or a message: a text as it is, anything else in a notation with
capitalised words for nothing and the truth values, and with quoted texts inside lists and records.

Main definitions: `Value.display`, `Value.quoted` and `Value.label?`, the trimmed text of a value
when something is left of it.
-/

namespace FormScaffold.Value

/-- Pieces with a comma and a space between them. -/
def commaSeparated (pieces : List String) : String := ", ".intercalate pieces

mutual

/-- The notation of a value; texts are quoted. -/
def quoted : Value → String
  | .null => "None"
  | .bool b => if b then "True" else "False"
  | .int n => toString n
  | .real x => x.toText
  | .text s => Text.quoted s
  | .list items => "[" ++ commaSeparated (quotedItems items) ++ "]"
  | .record entries => "\x7b" ++ commaSeparated (quotedEntries entries) ++ "\x7d"

/-- The notations of the items of a list. -/
def quotedItems : List Value → List String
  | [] => []
  | v :: vs => quoted v :: quotedItems vs

/-- The notations of the entries of a record. -/
def quotedEntries : List (String × Value) → List String
  | [] => []
  | (k, v) :: es => (Text.quoted k ++ ": " ++ quoted v) :: quotedEntries es

end

/-- A text as it is, any other value in its notation. -/
def display : Value → String
  | .text s => s
  | v => v.quoted

/-- A text is shown as it is. -/
@[simp] theorem display_text (s : String) : display (.text s) = s := rfl

/-- The trimmed text of a value, when the value is something and the text is not blank. -/
def label? : Value → Option String
  | .null => none
  | v =>
    let s := Text.strip v.display
    if s == "" then none else some s

/-- Nothing has no label. -/
@[simp] theorem label?_null : label? .null = none := rfl

end FormScaffold.Value
