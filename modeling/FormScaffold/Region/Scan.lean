import FormScaffold.Region.Marker

/-!
# Finding regions

The lines of a text are read one by one. A region is found when the line where it begins is
followed, with no marker in between, by the line where it ends, and no other marker line of the
text names it. A name whose markers are in any other order has a problem and no region.

Main definitions: `Region`, `Region.Problem`, and `Region.scan`.
-/

namespace FormScaffold

/-- A region of a text, by the places of its characters. -/
structure Region where
  name : String
  /-- Where the line begins that opens the region. -/
  start : Nat
  /-- Where the inner text begins. -/
  innerStart : Nat
  /-- Where the inner text ends and the line begins that closes the region. -/
  innerEnd : Nat
  /-- Where that line ends. -/
  finish : Nat
  deriving DecidableEq, Repr

namespace Region

/-- What is wrong with the markers of a name. -/
inductive Problem where
  /-- Another region begins inside. -/
  | holds (inner own : String)
  /-- It begins inside another region. -/
  | inside (outer : String)
  /-- It begins a second time. -/
  | repeated
  /-- It ends without having begun. -/
  | unopened
  /-- The end of another region was found where its own was due. -/
  | closedBy (other : String)
  /-- It does not end. -/
  | unclosed
  deriving DecidableEq, Repr

/-- The problem in words. -/
def Problem.reason : Problem → String
  | .holds inner own =>
    "begin marker for '" ++ inner ++ "' nested inside region '" ++ own ++ "'"
  | .inside outer => "begin marker nested inside region '" ++ outer ++ "'"
  | .repeated => "duplicate begin marker"
  | .unopened => "end marker without matching begin marker"
  | .closedBy other => "closed by end marker for '" ++ other ++ "'"
  | .unclosed => "missing end marker"

/-- A region whose end was not found yet. -/
structure Opening where
  name : String
  start : Nat
  innerStart : Nat
  deriving DecidableEq, Repr

/-- What was found in the lines read so far. -/
structure Scan where
  /-- The regions, in order. -/
  regions : List Region
  /-- The first problem of each name that has one. -/
  problems : List (String × Problem)
  /-- The names of the regions that were opened. -/
  begun : List String
  /-- The region that is open. -/
  opened : Option Opening
  deriving DecidableEq, Repr

namespace Scan

/-- Before the first line. -/
def empty : Scan := ⟨[], [], [], none⟩

/-- The region of a name. -/
def region? (s : Scan) (name : String) : Option Region := s.regions.find? (·.name == name)

/-- The problem of a name. -/
def problem? (s : Scan) (name : String) : Option Problem :=
  (s.problems.find? (·.1 == name)).map (·.2)

/-- The names of the regions, in order. -/
def names (s : Scan) : List String := s.regions.map (·.name)

/-- Notes a problem: the first one of a name stays, and the name has no region. -/
def flaw (s : Scan) (name : String) (p : Problem) : Scan :=
  { s with
    regions := s.regions.filter (·.name != name)
    problems := if (s.problem? name).isSome then s.problems else s.problems ++ [(name, p)] }

/-- Nothing is open any more. -/
def close (s : Scan) : Scan := { s with opened := none }

/-- A line where a region begins, from `start` to `finish`. -/
def beginAt (s : Scan) (name : String) (start finish : Nat) : Scan :=
  match s.opened with
  | some o => ((s.flaw o.name (.holds name o.name)).flaw name (.inside o.name)).close
  | none =>
    if s.begun.contains name then s.flaw name .repeated
    else { s with begun := name :: s.begun, opened := some ⟨name, start, finish⟩ }

/-- A line where a region ends, from `start` to `finish`. -/
def endAt (s : Scan) (name : String) (start finish : Nat) : Scan :=
  match s.opened with
  | none => s.flaw name .unopened
  | some o =>
    if name != o.name then
      ((s.flaw o.name (.closedBy name)).flaw name .unopened).close
    else if (s.problem? name).isSome then s.close
    else { s with
      regions := s.regions ++ [⟨name, o.start, o.innerStart, start, finish⟩]
      opened := none }

/-- A line that marks `mark`, from `start` to `finish`. -/
def lineAt (s : Scan) (mark : Mark) (start finish : Nat) : Scan :=
  match mark with
  | .begins name => s.beginAt name start finish
  | .ends name => s.endAt name start finish
  | .plain => s

/-- Reads lines, the first of which begins at `offset`. -/
def lines (s : Scan) (offset : Nat) : List (List Char) → Scan
  | [] => s
  | line :: rest =>
    lines (s.lineAt (Mark.ofLine line) offset (offset + line.length)) (offset + line.length) rest

/-- After the last line. -/
def finish (s : Scan) : Scan :=
  match s.opened with
  | some o => (s.flaw o.name .unclosed).close
  | none => s

end Scan

/-- The regions and the problems of a text. -/
def scan (text : List Char) : Scan := (Scan.empty.lines 0 (Text.lines text)).finish

/-- The names of the regions of a text, in order. -/
def names (text : List Char) : List String := (scan text).names

/-- The inner text of a region. -/
def inner (r : Region) (text : List Char) : List Char :=
  (text.take r.innerEnd).drop r.innerStart

/-- Nothing is found in the empty text. -/
@[simp] theorem scan_nil : scan [] = Scan.empty := rfl

end Region

end FormScaffold
