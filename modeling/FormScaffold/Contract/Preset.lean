import FormScaffold.Text.Blank
import FormScaffold.Text.Case
import FormScaffold.Value.Basic

/-!
# Style presets

A preset names the layout of the views: how many columns a form has, how wide the spacing is, and
how many rows a page of a list shows.
-/

namespace FormScaffold

/-- Hints for the layout of the views. -/
structure Layout where
  columns : Nat
  spacing : String
  pageSize : Nat
  deriving DecidableEq, Repr

/-- The layout as data. -/
def Layout.toValue (l : Layout) : Value :=
  .record [("columns", .ofNat l.columns), ("spacing", .text l.spacing),
    ("pageSize", .ofNat l.pageSize)]

/-- The presets. -/
inductive Preset where
  | plain
  | dense
  | spacious
  deriving DecidableEq, Repr

namespace Preset

/-- All presets. -/
def all : List Preset := [plain, dense, spacious]

/-- The name of a preset. -/
def name : Preset → String
  | plain => "plain"
  | dense => "dense"
  | spacious => "spacious"

/-- The layout of a preset. -/
def layout : Preset → Layout
  | plain => ⟨2, "md", 20⟩
  | dense => ⟨3, "sm", 50⟩
  | spacious => ⟨1, "lg", 10⟩

/-- The preset of a name, whatever its case and the blanks around it. -/
def ofName? (s : String) : Option Preset :=
  all.find? fun p => p.name == Text.lowerAscii (Text.strip s)

example : ofName? " Dense\n" = some dense := by decide +kernel

end Preset

end FormScaffold
