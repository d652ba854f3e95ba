import FormScaffold.CommandLine.Reach

/-!
# The program

Shows a command the part of the disk that it looks at, runs it, and writes what it changed.
-/

namespace FormScaffold

/-- The tree with a directory and all directories on the way there. -/
def FileTree.withDirectories (t : FileTree) (loc : Location) : FileTree :=
  (List.range loc.length).foldl (fun t k => t.put (loc.take (k + 1)) .directory) t

namespace Disk

/-- The path of a location on the disk. -/
def path (loc : Location) : String := (Path.mk .root loc).text

/-- The place on the disk that a path leads to, all links followed, when something is there. -/
def realLocation? (name : String) : IO (Option Location) := do
  match ← (IO.FS.realPath name).toBaseIO with
  | .ok real => return some (Path.ofText (toString real)).steps
  | .error _ => return none

/-- The tree with what stands on the disk along the steps from a directory. -/
def look (t : FileTree) (loc : Location) : List String → IO FileTree
  | [] => return t.withDirectories loc
  | ".." :: rest => look t loc.dropLast rest
  | name :: rest => do
    match ← realLocation? (path (loc ++ [name])) with
    | none => return t.withDirectories loc
    | some real =>
      let t := t.withDirectories loc
      let t := if real = loc ++ [name] then t else t.put (loc ++ [name]) (.link (path real))
      if (← realLocation? (path real ++ "/.")).isSome then look t real rest
      else
        match ← (IO.FS.readBinFile (path real)).toBaseIO with
        | .ok bytes => return (t.withDirectories real.dropLast).put real (.file bytes)
        | .error _ => return t

/-- The tree with what stands on the disk along each path. -/
def lookAll (t : FileTree) (current : Location) (paths : List Path) : IO FileTree :=
  paths.foldlM (fun t p => look t (p.start current) p.steps) t

/-- Writes what differs from an older tree to the disk. -/
def save (old new : FileTree) : IO Unit :=
  new.items.forM fun (loc, item) =>
    match old.item? loc, item with
    | some .directory, .directory => pure ()
    | _, .directory => IO.FS.createDirAll (path loc)
    | some (.file before), .file bytes =>
      if before.toList == bytes.toList then pure () else IO.FS.writeBinFile (path loc) bytes
    | _, .file bytes => IO.FS.writeBinFile (path loc) bytes
    | _, .link _ => pure ()

end Disk

/-- The settings of the environment. -/
def settingsOfEnvironment : IO Settings := do
  let defaults : Settings := {}
  return { defaults with
    siteUrl := ← IO.getEnv "FRAPPE_URL"
    apiKey := ← IO.getEnv "FRAPPE_API_KEY"
    apiSecret := ← IO.getEnv "FRAPPE_API_SECRET"
    metadataDirectory := ← IO.getEnv "METADATA_DIR"
    preset := (← IO.getEnv "DEFAULT_STYLE_PRESET").getD defaults.preset
    strategy := (← IO.getEnv "DEFAULT_SYNC_STRATEGY").getD defaults.strategy
    language := (← IO.getEnv "TARGET_LANGUAGE").getD defaults.language }

/-- The part of the disk that a command line looks at: first the dumps of the entity, then all that
they lead to. -/
def known (settings : Settings) (current : Location) (words : List String) : IO FileTree := do
  let start := FileTree.empty.withDirectories current
  match CommandLine.read settings words with
  | .read c =>
    let t ← Disk.lookAll start current (c.paths settings start current)
    Disk.lookAll t current (c.paths settings t current)
  | _ => return start

end FormScaffold

open FormScaffold in
/-- Runs a command line on the disk. This program carries no requests to a site. -/
def main (words : List String) : IO UInt32 := do
  let settings ← settingsOfEnvironment
  let current := (Path.ofText (toString (← IO.currentDir))).steps
  let t ← known settings current words
  let out := CommandLine.run settings (fun _ => .unreachable "no network") t current words
  Disk.save t out.tree
  IO.print out.output
  out.errors.forM fun line => IO.eprintln line
  if out.crash.isSome then IO.eprintln "the metadata could not be used"
  return UInt32.ofNat out.exitCode
