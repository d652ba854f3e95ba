import FormScaffold.CommandLine.Command

/-!
# What a command looks at

The paths that a command follows, as far as the known part of a file tree tells: the dumps of its
entity, those of its child entities, and the files that it writes. When the tree already shows what
stands at the first ones, the others follow.

Main definition: `Command.paths`.
-/

namespace FormScaffold.Command

/-- The directory of dumps that a command reads, if it reads any. -/
def dumps? (c : Command) (settings : Settings) (t : FileTree) (current : Location) :
    Option Dumps := do
  let named := (given? c.metadataDirectory).orElse fun _ => settings.metadataDirectory
  return ⟨t, current, Path.ofText (← given? named)⟩

/-- The compiler of a command. -/
def compiler (c : Command) (settings : Settings) (d : Dumps) : Compiler :=
  ⟨.ofDumps d, some c.language, settings⟩

/-- The child entities of the entity of a command. -/
def childEntities (c : Command) (settings : Settings) (d : Dumps) : List String :=
  match (c.compiler settings d).contract c.entity (some c.preset) with
  | .ok contract => contract.childTables.map (·.2.entity)
  | .error _ => []

/-- The files that a command writes. -/
def outputs (c : Command) (settings : Settings) (d : Dumps) : List Path :=
  match c.action with
  | .contract => []
  | .generate out => [Path.ofText ((given? out).getD (Compiler.archiveName c.entity))]
  | .sync root _ _ =>
    Path.ofText root :: match (c.compiler settings d).compile c.entity (some c.preset) with
      | .ok compiled => compiled.artifacts.map fun a => (Path.ofText root).join a.path
      | .error _ => []

/-- The paths that a command follows. -/
def paths (c : Command) (settings : Settings) (t : FileTree) (current : Location) : List Path :=
  match c.dumps? settings t current with
  | none => []
  | some d =>
    d.directory :: (c.entity :: c.childEntities settings d).flatMap d.candidates ++
      c.outputs settings d

end FormScaffold.Command
