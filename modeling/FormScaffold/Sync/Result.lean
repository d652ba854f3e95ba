import FormScaffold.Value.Basic

/-!
# Results of syncing

Main definition: `MergeResult`.
-/

namespace FormScaffold

/-- What became of an artifact. -/
inductive MergeStatus where
  | created
  | updated
  | unchanged
  | conflict
  deriving DecidableEq, Repr

/-- The word for a status. -/
def MergeStatus.word : MergeStatus → String
  | .created => "created"
  | .updated => "updated"
  | .unchanged => "unchanged"
  | .conflict => "conflict"

/-- What became of an artifact, and why. -/
structure MergeResult where
  path : String
  status : MergeStatus
  /-- Why there was a conflict. -/
  reason : Option String
  /-- The regions that are new or different. -/
  changed : List String
  warnings : List String
  deriving DecidableEq, Repr

namespace MergeResult

/-- A conflict, with its reason. -/
def ofConflict (path reason : String) : MergeResult := ⟨path, .conflict, some reason, [], []⟩

/-- The result as data. -/
def toValue (r : MergeResult) : Value :=
  .record [("path", .text r.path), ("status", .text r.status.word), ("reason", .ofText? r.reason),
    ("regionsChanged", .ofTexts r.changed), ("warnings", .ofTexts r.warnings)]

end MergeResult

end FormScaffold
