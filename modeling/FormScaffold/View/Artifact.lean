import FormScaffold.Region.Scan
import FormScaffold.Value.Basic
import FormScaffold.View.Annotation

/-!
# Artifacts

An artifact is a generated file: its path below the destination, its text, the regions that stay
owned by the generator, and warnings about what could not be shown as it should be.

Main definitions: `Artifact` and `Artifact.ofContent`.
-/

namespace FormScaffold

/-- Something in a contract that was rendered in a generic way. -/
structure ViewWarning where
  path : String
  message : String
  region : String
  field : Value
  deriving Repr

/-- The warning as data. -/
def ViewWarning.toValue (w : ViewWarning) : Value :=
  .record [("path", .text w.path), ("message", .text w.message), ("region", .text w.region),
    ("field", w.field)]

/-- A generated file. -/
structure Artifact where
  path : String
  content : String
  /-- The regions that belong to the generator. -/
  owned : List String
  warnings : List ViewWarning
  deriving Repr

/-- A file that owns the regions of its text. -/
def Artifact.ofContent (path content : String) (warnings : List ViewWarning) : Artifact :=
  ⟨path, content, Region.names content.toList, warnings⟩

namespace View

/-- The path of a file without its ending, and with it. -/
def filePath (language : Language) (stem : String) : String := stem ++ "." ++ language.word

/-- Lines with line feeds between them. -/
def joinLines (lines : List String) : String := "\n".intercalate lines

end View

end FormScaffold
