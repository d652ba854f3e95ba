import FormScaffold.Report
import FormScaffold.View.Page
import FormScaffold.View.Shared

/-!
# Rendering contracts

A contract is rendered as eight files, beside the four shared ones, which a tree has once.

Things are kept by the names of fields on the way, so that a field whose name cannot be a key stops
the rendering.

Main definitions: `View.entityArtifacts`, `View.renderEntity`, and `View.render`, which also reads
the names of the language and the layout.
-/

namespace FormScaffold

/-- The language of a word, which must be one of the two. -/
def Language.check (word : String) : Except Failure Language :=
  match ofWord? word with
  | some language => .ok language
  | none => .error (.refused ("Unsupported language: " ++ Text.quoted word))

namespace View

/-- A module of an entity as a file. -/
def moduleFile (names : Names) (stem content : String) : Artifact :=
  .ofContent (filePath names.language stem) content []

/-- The files of the entity of a contract. -/
def entityArtifacts (c : Contract) (layout : Layout) (language : Language) : List Artifact :=
  let names := Names.ofContract c language
  let page := "pages/" ++ names.slug
  [listPage names c layout, formPage names c layout,
    moduleFile names (page ++ "/resource") (resourceModule names c),
    moduleFile names (page ++ "/behavior") (behaviorModule names c),
    moduleFile names (page ++ "/depends") (dependsModule names c),
    moduleFile names (page ++ "/realtime") (realtimeModule names c),
    moduleFile names ("actions/" ++ names.slug) (actionsModule names c),
    moduleFile names ("router/" ++ names.slug) (routerModule names)]

/-- The names under which the files of an entity keep things: those of the filters that state a
default, of the fields of the form, and of the fields of child tables. -/
def keptNames (c : Contract) : List Value :=
  (c.filters.filter fun f => isStated f.default).map (·.name) ++ c.fields.map (·.name) ++
    c.childTables.flatMap fun t => t.2.fields.map (·.name)

/-- The files of the entity of a contract, in which every name that keeps something is a key. -/
def renderEntity (c : Contract) (layout : Layout) (language : Language) :
    Except Failure (List Artifact) := do
  let _ ← ((keptNames c).mapM Value.key).mapError .fault
  return entityArtifacts c layout language

/-- The layout of a named preset. -/
def layoutOf (preset : String) : Except Failure Layout :=
  match resolvePreset (some preset) with
  | .ok p => .ok p.layout
  | .error e => .error e.failure

/-- The files of a contract in a named layout and language, with or without the shared ones. -/
def render (c : Contract) (preset language : String) (shared : Bool) :
    Except Failure (List Artifact) := do
  let language ← Language.check language
  let layout ← layoutOf preset
  return (if shared then sharedArtifacts language else []) ++ (← renderEntity c layout language)

/-- The files of entities whose contracts are built one by one while they are rendered. -/
def renderEach (contracts : List (Except Failure Contract)) (preset language : String) :
    Except Failure (List Artifact) := do
  let language ← Language.check language
  let files ← contracts.mapM fun built => do
    let c ← built
    renderEntity c (← layoutOf preset) language
  return sharedArtifacts language ++ files.flatten

end View

end FormScaffold
