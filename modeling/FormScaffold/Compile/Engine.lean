import FormScaffold.Archive.Pack
import FormScaffold.Settings
import FormScaffold.Sync.Run
import FormScaffold.View.Render

/-!
# Compiling an entity

A compiler has a source of metadata and a language. It builds the contract of an entity, renders
its files, and packs them or syncs them into a tree; each stage that ends is recorded.

Main definitions: `Compiler`, `Compiler.contract`, `Compiler.generate` and `Compiler.sync`.
-/

namespace FormScaffold

/-- The stages of a run. -/
inductive Stage where
  | buildContract
  | render
  | pack
  | sync
  | done
  deriving DecidableEq, Repr

/-- The name of a stage. -/
def Stage.name : Stage → String
  | .buildContract => "BUILD_CONTRACT"
  | .render => "RENDER"
  | .pack => "PACK"
  | .sync => "SYNC"
  | .done => "DONE"

/-- A stage that ended. -/
structure StageResult where
  stage : Stage
  message : String
  deriving DecidableEq, Repr

/-- A stage that ended well. -/
def Stage.ok (s : Stage) : StageResult := ⟨s, "ok"⟩

/-- How generated files are handed over. -/
inductive OutputMode where
  /-- As they are. -/
  | inline
  /-- With an archive of them. -/
  | archive
  deriving DecidableEq, Repr

/-- The word for a mode. -/
def OutputMode.word : OutputMode → String
  | .inline => "inline"
  | .archive => "archive"

/-- The mode of a word, which must be one of the two. -/
def OutputMode.check (word : String) : Except Failure OutputMode :=
  match [inline, archive].find? (·.word == word) with
  | some mode => .ok mode
  | none => .error (.refused (Text.quoted word ++ " is not a valid OutputMode"))

/-- What compiles entities. -/
structure Compiler where
  source : Source
  /-- The word for the language; none for that of the settings. -/
  language : Option String
  settings : Settings := {}

/-- A compiled entity. -/
structure Compiled where
  contract : Contract
  artifacts : List Artifact

/-- What generating an entity gives. -/
structure Generated extends Compiled where
  archive : Option Archive
  stages : List StageResult

/-- What syncing an entity gives. -/
structure Synced extends Compiled where
  results : List MergeResult
  stages : List StageResult

namespace Compiler

/-- The name of the preset: the given one, or that of the settings. -/
def presetName (c : Compiler) (preset : Option String) : Except Failure String :=
  ((resolvePreset (some ((given? preset).getD c.settings.preset))).map Preset.name).mapError
    BuildError.failure

/-- The contract of an entity. -/
def contract (c : Compiler) (entity : String) (preset : Option String) :
    Except Failure Contract := do
  let preset ← c.presetName preset
  (Contract.build c.source entity (some preset)).mapError BuildError.failure

/-- The contract of an entity and its files. -/
def compile (c : Compiler) (entity : String) (preset : Option String) :
    Except Failure Compiled := do
  let preset ← c.presetName preset
  let contract ← c.contract entity (some preset)
  let language := (given? c.language).getD c.settings.language
  return ⟨contract, ← View.render contract preset language true⟩

/-- The stages of compiling. -/
def compileStages : List StageResult := [Stage.buildContract.ok, Stage.render.ok]

/-- The name of the archive of an entity. -/
def archiveName (entity : String) : String := Naming.slug entity ++ "-ui.zip"

/-- Compiles an entity and hands its files over. -/
def generate (c : Compiler) (entity : String) (preset : Option String) (mode : OutputMode) :
    Except Failure Generated := do
  let out ← c.compile entity preset
  let finish (archive : Option Archive) (packing : List StageResult) : Generated :=
    { out with
      archive
      stages := compileStages ++ packing ++
        [⟨.done, toString out.artifacts.length ++ " artifacts"⟩] }
  match mode with
  | .inline => return finish none []
  | .archive =>
    let name := archiveName out.contract.entity
    let archive ← (Archive.pack out.artifacts (some name)).mapError Archive.PackError.failure
    return finish (some archive) [Stage.pack.ok]

/-- Compiles an entity and syncs its files into a tree below a root. -/
def sync (c : Compiler) (t : FileTree) (current : Location) (entity : String)
    (preset : Option String) (root : Path) (strategy : Option String) (dryRun : Bool) :
    FileTree × Except Failure Synced :=
  let ready : Except Failure (Compiled × Region.Strategy) := do
    let out ← c.compile entity preset
    return (out, ← Region.Strategy.check ((given? strategy).getD c.settings.strategy))
  match ready with
  | .error e => (t, .error e)
  | .ok (out, strategy) =>
    let run := Sync.run t ⟨current, root, strategy, dryRun⟩ false out.artifacts
    (run.tree, run.results.map fun results =>
      { out with
        results
        stages := compileStages ++
          [Stage.sync.ok, ⟨.done, toString results.length ++ " files synced"⟩] })

end Compiler

end FormScaffold
