import FormScaffold.Files.Change
import FormScaffold.Region.Merge
import FormScaffold.Report
import FormScaffold.Sync.Result
import FormScaffold.View.Artifact

/-!
# Syncing artifacts into a tree

Each artifact becomes a file below a root. A file that is not there is created; into one that is
there the owned regions are merged. No path leads out of the root. An artifact with the path of an
earlier one is left out, and is a conflict if it has another text.

Main definitions: `Sync.FileError`, `Sync.destination`, `Sync.store`, `Sync.file` and `Sync.run`.
-/

namespace FormScaffold

/-- The strategy of a word, which must be one of the two. -/
def Region.Strategy.check (word : String) : Except Failure Region.Strategy :=
  match ofWord? word with
  | some s => .ok s
  | none => .error (.refused (Text.quoted word ++ " is not a valid SyncStrategy"))

namespace Sync

/-- Why an artifact has no place in the tree. -/
inductive FileError where
  /-- Its path leads out of the root. -/
  | escapes
  /-- Its path is the root. -/
  | isRoot
  /-- Something else than a file stands there. -/
  | notFile
  /-- The file there is no text or cannot be read. -/
  | unreadable
  /-- The file cannot be written. -/
  | unwritable
  deriving DecidableEq, Repr

/-- The error in words. -/
def FileError.message : FileError → String
  | .escapes => "Artifact path escapes the destination root"
  | .isRoot => "Artifact path points at the destination root"
  | .notFile => "Destination exists and is not a regular file"
  | .unreadable => "Cannot read destination file"
  | .unwritable => "Cannot write destination file"

/-- Whether the message says all. -/
def FileError.isComplete : FileError → Bool
  | .unreadable => false
  | .unwritable => false
  | _ => true

/-- The error as a report. -/
def FileError.report (e : FileError) (path : String) : Report :=
  ⟨.file, e.message, .file path, e.isComplete⟩

/-- How syncing one artifact fails. -/
inductive Problem where
  /-- An error that is a conflict in the results. -/
  | file (e : FileError)
  /-- A path that cannot be followed. -/
  | path (e : PathError)
  /-- A text that has no bytes. -/
  | unencodable
  deriving DecidableEq, Repr

/-- Where and how artifacts are synced. -/
structure Options where
  /-- The current directory. -/
  current : Location
  root : Path
  strategy : Region.Strategy
  /-- Whether nothing is written. -/
  dryRun : Bool

/-- The location of an artifact, which lies below the root. -/
def destination (t : FileTree) (o : Options) (path : String) : Except Problem Location := do
  let base ← (t.resolve o.current o.root).mapError .path
  let target ← (t.resolve o.current (base.join path)).mapError .path
  if target.anchor != base.anchor || !base.steps.isPrefixOf target.steps then
    .error (.file .escapes)
  else if target.steps == base.steps then .error (.file .isRoot)
  else return target.steps

/-- The path of a location. -/
def pathOf (loc : Location) : Path := ⟨.root, loc⟩

/-- What stands at the destination. Only a path that is too long is a problem: with others nothing
is there. -/
def existing (t : FileTree) (loc : Location) : Except Problem (Option Item) :=
  match t.find [] (pathOf loc) with
  | .ok found => .ok (some found.2)
  | .error .nameTooLong => .error (.path .nameTooLong)
  | .error _ => .ok none

/-- The tree with a text at the destination, unless nothing is to be written. Directories that were
made on the way stay when the file cannot be opened. It is opened, and emptied, before the text is
turned into bytes, and stays empty when there are none. -/
def store (t : FileTree) (o : Options) (loc : Location) (text : String) :
    FileTree × Except Problem Unit :=
  if o.dryRun then (t, .ok ())
  else
    let a := t.attemptFile [] (pathOf loc) (Text.bytes text)
    (a.tree,
      if a.error?.isSome then .error (.file .unwritable)
      else if Text.isPaired text then .ok ()
      else .error .unencodable)

/-- The regions that an artifact owns: those that it names, or all of its text. -/
def ownedRegions (a : Artifact) : List String :=
  if a.owned.isEmpty then Region.names a.content.toList else a.owned

/-- Stores a text, with what to report when that is done. -/
def storeAs (t : FileTree) (o : Options) (loc : Location) (text : String) (r : MergeResult) :
    FileTree × Except Problem MergeResult :=
  let (t, stored) := store t o loc text
  (t, stored.map fun _ => r)

/-- Merges an artifact into the text of a file. -/
def mergeInto (t : FileTree) (o : Options) (a : Artifact) (loc : Location) (old : String) :
    FileTree × Except Problem MergeResult :=
  match Region.merge old.toList a.content.toList (ownedRegions a) a.path o.strategy with
  | .error c => (t, .ok (.ofConflict a.path c.message))
  | .ok m =>
    if m.text == old.toList then (t, .ok ⟨a.path, .unchanged, none, [], m.warnings⟩)
    else
      storeAs t o loc (String.ofList m.text) ⟨a.path, .updated, none, m.changed, m.warnings⟩

/-- Syncs an artifact with what stands at its destination. -/
def fileAt (t : FileTree) (o : Options) (a : Artifact) (loc : Location) :
    Option Item → FileTree × Except Problem MergeResult
  | none => storeAs t o loc a.content ⟨a.path, .created, none, ownedRegions a, []⟩
  | some (.file bytes) =>
    match Text.ofUtf8? bytes with
    | none => (t, .error (.file .unreadable))
    | some old => mergeInto t o a loc old
  | some _ => (t, .error (.file .notFile))

/-- Where nothing stands, the file is stored as it was generated, with all its regions new. -/
theorem fileAt_none (t : FileTree) (o : Options) (a : Artifact) (loc : Location) :
    fileAt t o a loc none =
      storeAs t o loc a.content ⟨a.path, .created, none, ownedRegions a, []⟩ := by rfl

/-- Where a file stands, it is merged into, unless its bytes are no text. -/
theorem fileAt_file (t : FileTree) (o : Options) (a : Artifact) (loc : Location)
    (bytes : ByteArray) :
    fileAt t o a loc (some (.file bytes)) =
      match Text.ofUtf8? bytes with
      | none => (t, .error (.file .unreadable))
      | some old => mergeInto t o a loc old := by rfl

/-- Syncs one artifact: the tree, and what became of the artifact. -/
def file (t : FileTree) (o : Options) (a : Artifact) : FileTree × Except Problem MergeResult :=
  match destination t o a.path with
  | .error p => (t, .error p)
  | .ok loc =>
    match existing t loc with
    | .error p => (t, .error p)
    | .ok item => fileAt t o a loc item

/-- The reason of a conflict between artifacts of one path. -/
def duplicateReason : String := "Duplicate artifact path with different content"

/-- What a run leaves behind: the tree, and the results or how the run ended early. -/
structure Outcome where
  tree : FileTree
  results : Except Failure (List MergeResult)

/-- One result more in front. -/
def Outcome.cons (r : MergeResult) (o : Outcome) : Outcome :=
  { o with results := o.results.map (r :: ·) }

/-- Syncs artifacts one after another; `seen` holds the texts of the paths before them. -/
def runFrom (o : Options) (stopOnError : Bool) (t : FileTree) (seen : List (String × String)) :
    List Artifact → Outcome
  | [] => ⟨t, .ok []⟩
  | a :: rest =>
    match seen.lookup a.path with
    | some content =>
      if content == a.content then runFrom o stopOnError t seen rest
      else (runFrom o stopOnError t seen rest).cons (.ofConflict a.path duplicateReason)
    | none =>
      let seen := (a.path, a.content) :: seen
      match file t o a with
      | (t, .ok r) => (runFrom o stopOnError t seen rest).cons r
      | (t, .error (.path e)) => ⟨t, .error (.fault (.path e))⟩
      | (t, .error .unencodable) => ⟨t, .error (.fault .unencodable)⟩
      | (t, .error (.file e)) =>
        if stopOnError then ⟨t, .error (.report (e.report a.path))⟩
        else (runFrom o stopOnError t seen rest).cons (.ofConflict a.path e.message)

/-- Without artifacts a run leaves the tree and reports nothing. -/
@[simp] theorem runFrom_nil (o : Options) (stopOnError : Bool) (t : FileTree)
    (seen : List (String × String)) : runFrom o stopOnError t seen [] = ⟨t, .ok []⟩ := by
  rw [runFrom]

/-- Syncs artifacts, one file at a time. -/
def run (t : FileTree) (o : Options) (stopOnError : Bool) (artifacts : List Artifact) : Outcome :=
  runFrom o stopOnError t [] artifacts

end Sync

end FormScaffold
