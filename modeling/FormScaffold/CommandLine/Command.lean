import FormScaffold.CommandLine.Arguments
import FormScaffold.Compile.Engine

/-!
# Commands

The command line compiles one entity: it prints the contract, writes an archive of the files, or
syncs them into a tree. Errors go to the error stream; a run with conflicts fails.

Main definitions: `Command`, `CommandLine.read` and `CommandLine.run`.
-/

namespace FormScaffold

/-- What a command does with an entity. -/
inductive Action where
  | contract
  /-- Writes an archive, to a path or under its own name. -/
  | generate (out : Option String)
  | sync (root strategy : String) (dryRun : Bool)
  deriving DecidableEq, Repr

/-- A command. -/
structure Command where
  action : Action
  entity : String
  metadataDirectory : Option String
  preset : String
  language : String
  deriving DecidableEq, Repr

namespace CommandLine

/-! ## Reading -/

/-- The options before the command. -/
def mainSwitches : List Switch :=
  helpSwitches ++ [.argument "--metadata-dir", .choice "--preset" (Preset.all.map Preset.name),
    .choice "--language" ([Language.js, .ts].map Language.word)]

/-- The options of the commands. -/
def commandSwitches : String → Option (List Switch)
  | "contract" => some helpSwitches
  | "generate" => some (helpSwitches ++ [.argument "--out"])
  | "sync" => some (helpSwitches ++ [.argument "--dest",
      .choice "--strategy" ([Region.Strategy.respectManual, .overwriteAuto].map
        Region.Strategy.word), .flag "--dry-run"])
  | _ => none

/-- The action of a command, where its options are complete. -/
def actionOf (settings : Settings) (name : String) (a : Arguments) : Option Action :=
  match name with
  | "contract" => some .contract
  | "generate" => some (.generate (a.argument? "--out"))
  | "sync" => (a.argument? "--dest").map fun root =>
      .sync root ((a.argument? "--strategy").getD settings.strategy) (a.has "--dry-run")
  | _ => none

/-- The command of a command line. -/
def read (settings : Settings) (words : List String) : Reading Command :=
  match readLeading mainSwitches words with
  | .help => .help
  | .wrong => .wrong
  | .read (_, []) => .wrong
  | .read (main, name :: rest) =>
    match commandSwitches name with
    | none => .wrong
    | some switches =>
      match readMixed switches rest with
      | .help => .help
      | .wrong => .wrong
      | .read a =>
        match a.plain, actionOf settings name a with
        | [entity], some action =>
          if main.hasUnknown || a.hasUnknown then .wrong
          else .read ⟨action, entity, main.argument? "--metadata-dir",
            (main.argument? "--preset").getD settings.preset,
            (main.argument? "--language").getD settings.language⟩
        | _, _ => .wrong

/-! ## Running -/

/-- What a run leaves behind. -/
structure Outcome where
  tree : FileTree
  exitCode : Nat
  output : String
  /-- The lines on the error stream. -/
  errors : List String
  /-- The failure that ended the run, when it was not foreseen. -/
  crash : Option Failure

namespace Outcome

/-- A run that ended well. -/
def ofOutput (t : FileTree) (output : String) : Outcome := ⟨t, 0, output, [], none⟩

/-- A run that failed. -/
def ofFailure (t : FileTree) : Failure → Outcome
  | .report r => ⟨t, 1, "", ["Error: " ++ r.text], none⟩
  | f => ⟨t, 1, "", [], some f⟩

end Outcome

/-- The source of metadata: the directory that the command names, or what the settings name. -/
def sourceOf (settings : Settings) (send : Transport) (t : FileTree) (current : Location)
    (directory : Option String) : Except Failure Source :=
  let settings := match given? directory with
    | some d => { settings with metadataDirectory := some d }
    | none => settings
  match settings.origin with
  | .ok (.dumps d) => .ok (.ofDumps ⟨t, current, d⟩)
  | .ok (.site s _) => .ok (.ofSite s send)
  | .error e => .error (.report e.report)

/-- The line of a warning about a file. -/
def warningLine (w : ViewWarning) : String := "warning: " ++ w.path ++ ": " ++ w.message

/-- Writes the archive of a generated entity. -/
def writeArchive (t : FileTree) (current : Location) (out : Option String) (g : Generated)
    (archive : Archive) : Outcome :=
  let path := Path.ofText ((given? out).getD archive.filename)
  let bytes := ByteArray.mk ((Base64.decode? archive.data.toList).getD []).toArray
  let a := t.attemptFile current path bytes
  match a.error? with
  | none => ⟨a.tree, 0,
      "Wrote " ++ toString g.artifacts.length ++ " files to " ++ path.text ++ "\n",
      (g.artifacts.flatMap (·.warnings)).map warningLine, none⟩
  | some e => .ofFailure a.tree (.fault (.path e))

/-- The width of the column of statuses. -/
def statusWidth : Nat := 10

/-- A word in a column. -/
def column (word : String) : String :=
  word ++ String.ofList (List.replicate (statusWidth - word.toList.length) ' ')

/-- The lines about a synced file. -/
def resultLines (r : MergeResult) : List String :=
  (column r.status.word ++ " " ++ r.path ++ match r.reason with
    | some reason => if reason == "" then "" else "  (" ++ reason ++ ")"
    | none => "") :: r.warnings.map fun w => column "" ++ " warning: " ++ w

/-- The outcome of syncing. -/
def syncOutcome (t : FileTree) (results : List MergeResult) : Outcome :=
  ⟨t, if results.any (·.status == .conflict) then 1 else 0,
    String.join ((results.flatMap resultLines).map (· ++ "\n")), [], none⟩

/-- Runs a command. -/
def runCommand (c : Command) (settings : Settings) (send : Transport) (t : FileTree)
    (current : Location) : Outcome :=
  match sourceOf settings send t current c.metadataDirectory with
  | .error f => .ofFailure t f
  | .ok source =>
    let compiler : Compiler := ⟨source, some c.language, settings⟩
    match c.action with
    | .contract =>
      match compiler.contract c.entity (some c.preset) with
      | .ok contract => .ofOutput t (Json.indented .plain contract.toValue ++ "\n")
      | .error f => .ofFailure t f
    | .generate out =>
      match compiler.generate c.entity (some c.preset) .archive with
      | .ok g =>
        match g.archive with
        | some archive => writeArchive t current out g archive
        | none => .ofOutput t ""
      | .error f => .ofFailure t f
    | .sync root strategy dryRun =>
      match compiler.sync t current c.entity (some c.preset) (Path.ofText root) (some strategy)
          dryRun with
      | (t, .ok s) => syncOutcome t s.results
      | (t, .error f) => .ofFailure t f

/-- What the program is for. -/
def usage : String :=
  "usage: form-scaffold [-h] [--metadata-dir METADATA_DIR] [--preset PRESET] " ++
    "[--language LANGUAGE] COMMAND ...\n\nCompile DocType metadata into UI source files\n\n" ++
    "commands:\n  contract ENTITY\n  generate ENTITY [--out OUT]\n" ++
    "  sync ENTITY --dest DEST [--strategy STRATEGY] [--dry-run]\n"

/-- Runs a command line. -/
def run (settings : Settings) (send : Transport) (t : FileTree) (current : Location)
    (words : List String) : Outcome :=
  match read settings words with
  | .read c => runCommand c settings send t current
  | .help => .ofOutput t usage
  | .wrong => ⟨t, 2, "", [usage], none⟩

end CommandLine

end FormScaffold
