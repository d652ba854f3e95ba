import FormScaffold.Region.Scan

/-!
# Merging fresh regions into an edited file

Only the inner text of owned regions is replaced, by the inner text of the regions of the same name
in the fresh text, in the line ending of the file. Regions that the fresh text no longer owns are
orphans: one strategy leaves them, the other cuts them out with their markers. Everything else
stays as it was found.

Main definitions: `Strategy`, `Conflict` and `merge`.
-/

namespace FormScaffold.Region

/-- What happens to the regions that are no longer generated. -/
inductive Strategy where
  /-- They stay, with a warning. -/
  | respectManual
  /-- They are cut out. -/
  | overwriteAuto
  deriving DecidableEq, Repr

/-- The word for a strategy. -/
def Strategy.word : Strategy → String
  | .respectManual => "respect-manual"
  | .overwriteAuto => "overwrite-auto"

/-- The strategy of a word. -/
def Strategy.ofWord? (word : String) : Option Strategy :=
  [respectManual, overwriteAuto].find? (·.word == word)

/-- Why two texts cannot be merged. -/
inductive Conflict where
  /-- The markers of an owned region are malformed. -/
  | malformed (name : String) (p : Problem)
  /-- An owned region is not in the file. -/
  | missing (name : String)
  /-- An owned region is not in the fresh text. -/
  | ungenerated (name : String)
  /-- The markers of a region that is to be cut out are malformed. -/
  | orphan (name : String) (p : Problem)
  deriving DecidableEq, Repr

/-- The conflict in words. -/
def Conflict.message : Conflict → String
  | .malformed name p => "Region '" ++ name ++ "': " ++ p.reason
  | .missing name => "Missing markers for region '" ++ name ++ "'"
  | .ungenerated name => "Generated content lacks region '" ++ name ++ "'"
  | .orphan name p => "Orphan region '" ++ name ++ "': " ++ p.reason

/-- The region that the conflict is about. -/
def Conflict.region : Conflict → String
  | .malformed name _ => name
  | .missing name => name
  | .ungenerated name => name
  | .orphan name _ => name

/-- The text in the line ending of the file: where the file has a carriage return before a line
feed, every line feed of the text gets one. -/
def adaptEnding (existing fresh : List Char) : List Char :=
  if Text.hasCarriage existing then Text.toCarriage (Text.dropCarriage fresh) else fresh

/-- The owned region of a name in the file and in the fresh text, or what is wrong with it. -/
def owned (current generated : Scan) (name : String) : Except Conflict (Region × Region) :=
  match current.problem? name with
  | some p => .error (.malformed name p)
  | none =>
    match current.region? name, generated.region? name with
    | none, _ => .error (.missing name)
    | _, none => .error (.ungenerated name)
    | some old, some new => .ok (old, new)

/-- The names in the file that are not owned, in order of code points, each once. -/
def orphans (current : Scan) (ownedNames : List String) : List String :=
  let found := (current.names ++ current.problems.map (·.1)).filter (!ownedNames.contains ·)
  found.eraseDups.mergeSort fun a b => decide (a ≤ b)

/-- A stretch of a text and what takes its place. -/
structure Splice where
  start : Nat
  stop : Nat
  text : List Char
  deriving DecidableEq, Repr

/-- The text with the stretch replaced. -/
def Splice.apply (s : Splice) (text : List Char) : List Char :=
  text.take s.start ++ s.text ++ text.drop s.stop

/-- The text with all stretches replaced, the last one first, so that the places of the others
stay right. -/
def splice (splices : List Splice) (text : List Char) : List Char :=
  (splices.mergeSort fun a b => decide (b.start ≤ a.start)).foldl (fun t s => s.apply t) text

/-- A merged text with the names of the regions that changed. -/
structure Merged where
  text : List Char
  changed : List String
  warnings : List String
  deriving DecidableEq, Repr

/-- The warning about an orphan that stays. -/
def orphanWarning (path name : String) : String :=
  "Orphan region '" ++ name ++ "' left untouched in " ++ path

/-- An orphan that is to be cut out, or what is wrong with its markers. -/
def orphanRegion (current : Scan) (name : String) : Except Conflict (Option Region) :=
  match current.problem? name with
  | some p => .error (.orphan name p)
  | none => .ok (current.region? name)

/-- The orphans that are to be cut out. -/
def removals (current : Scan) (strategy : Strategy) (names : List String) :
    Except Conflict (List Region) :=
  match strategy with
  | .respectManual => .ok []
  | .overwriteAuto => do return (← names.mapM (orphanRegion current)).filterMap id

/-- The owned regions whose inner text differs, with their new inner text. -/
def edits (existing fresh : List Char) (pairs : List (Region × Region)) :
    List (Region × List Char) :=
  (pairs.map fun p => (p.1, p.2.inner fresh)).filter fun e => e.1.inner existing != e.2

/-- The existing text with the owned regions of the fresh text. -/
def merge (existing fresh : List Char) (ownedNames : List String) (path : String)
    (strategy : Strategy) : Except Conflict Merged := do
  let fresh := adaptEnding existing fresh
  let current := scan existing
  let pairs ← ownedNames.mapM (owned current (scan fresh))
  let orphanNames := orphans current ownedNames
  let removed ← removals current strategy orphanNames
  let changed := edits existing fresh pairs
  let splices := changed.map (fun e => Splice.mk e.1.innerStart e.1.innerEnd e.2) ++
    removed.map fun r => ⟨r.start, r.finish, []⟩
  let warnings := match strategy with
    | .respectManual => orphanNames.map (orphanWarning path)
    | .overwriteAuto => []
  return ⟨splice splices existing, changed.map (·.1.name) ++ removed.map (·.name), warnings⟩

end FormScaffold.Region
