import FormScaffold.Service.Body

/-!
# Answers to requests

Main definitions: `Reported`, `Service.health`, `Service.contract`, `Service.generate` and
`Service.sync`.
-/

namespace FormScaffold

/-- An answer with a status; a body whose shape is wrong has no answer. -/
inductive Reported where
  /-- The body of an answer. -/
  | body (v : Value)
  /-- A reported error. -/
  | problem (r : Report)
  /-- What is wrong with the body of the request. -/
  | flaws (fs : List (String × BodyFlaw))
  /-- A failure without a report. -/
  | failure (f : Failure)
  /-- An answer whose shape is wrong. -/
  | malformed

namespace Service

/-- The status that an error is answered with. -/
def status (r : Report) : Nat :=
  match r.kind with
  | .fetch => 404
  | .validation => 422
  | _ => 400

/-- What an error is answered with. -/
def detail (r : Report) : Value :=
  .record [("code", .text r.kind.code), ("message", .text r.message),
    ("entity", .ofText? r.subject.entity?)]

/-- The answer of a run. -/
def answerOf {α : Type} (r : Except Failure α) (body : α → Option Value) : Reported :=
  match r with
  | .ok a =>
    match body a with
    | some v => .body v
    | none => .malformed
  | .error (.report r) => .problem r
  | .error f => .failure f

/-- Whether the service is there. -/
def health (s : Settings) : Value :=
  .record [("status", .text "ok"), ("app", .text s.appName), ("env", .text s.environment)]

/-- A warning in an answer; the field it names has to be a text. -/
def warningValue? (w : ViewWarning) : Option Value :=
  match w.field with
  | .text _ => some w.toValue
  | .null => some w.toValue
  | _ => none

/-- A file in an answer. -/
def artifactValue? (a : Artifact) : Option Value := do
  let warnings ← a.warnings.mapM warningValue?
  return .record [("path", .text a.path), ("content", .text a.content),
    ("owned_regions", .ofTexts a.owned), ("warnings", .list warnings)]

/-- The stages in an answer. -/
def stagesValue (stages : List StageResult) : Value :=
  .list (stages.map fun s => .record [("stage", .text s.stage.name), ("ok", .bool true),
    ("message", .text s.message)])

/-- The start of the answers about a compiled entity. -/
def compiledEntries? (c : Compiled) : Option Entries := do
  let files ← c.artifacts.mapM artifactValue?
  return [("entity_name", .text c.contract.entity), ("contract", c.contract.toValue),
    ("artifacts", .list files)]

/-- The result of syncing a file in an answer. -/
def resultValue (r : MergeResult) : Value :=
  .record [("path", .text r.path), ("status", .text r.status.word), ("reason", .ofText? r.reason),
    ("regions_changed", .ofTexts r.changed), ("warnings", .ofTexts r.warnings)]

/-- The answer about a contract. -/
def contract (source : Source) (entity : String) (preset : Option String) : Reported :=
  answerOf (Compiler.contract ⟨source, none, {}⟩ entity preset) fun c => some c.toValue

/-- The answer about a generated entity. -/
def generatedValue? (g : Generated) : Option Value := do
  let es ← compiledEntries? g.toCompiled
  let archive := match g.archive with
    | some a => Value.record a.toEntries
    | none => .null
  return .record (es ++ [("archive", archive), ("stages", stagesValue g.stages)])

/-- The answer to a request to generate an entity. -/
def generate (source : Source) (body : Entries) : Reported :=
  match GenerateBody.read body with
  | .error flaws => .flaws flaws
  | .ok b =>
    let run := do
      Compiler.generate ⟨source, b.language, {}⟩ b.entity (some b.preset)
        (← OutputMode.check b.mode)
    answerOf run generatedValue?

/-- The answer about a synced entity. -/
def syncedValue? (dryRun : Bool) (s : Synced) : Option Value := do
  let es ← compiledEntries? s.toCompiled
  return .record (es ++ [("dry_run", .bool dryRun), ("results", .list (s.results.map resultValue)),
    ("stages", stagesValue s.stages)])

/-- The answer to a request to sync an entity into a tree, and the tree after it. -/
def sync (source : Source) (t : FileTree) (current : Location) (body : Entries) :
    FileTree × Reported :=
  match SyncBody.read body with
  | .error flaws => (t, .flaws flaws)
  | .ok b =>
    let (t, run) := Compiler.sync ⟨source, b.language, {}⟩ t current b.entity (some b.preset)
      (Path.ofText b.root) (some b.strategy) b.dryRun
    (t, answerOf run (syncedValue? b.dryRun))

end Service

end FormScaffold
