/-!
# Paths

A path is a start and the steps from there. Empty steps and steps to the same place are dropped
when a path is read; steps upward stay, since what they lead to depends on links.

Main definitions: `PathError`, `Path`, `Path.ofText`, `Path.text`, `Path.join` and `Path.extend`.
-/

namespace FormScaffold

/-- Why a path cannot be used. -/
inductive PathError where
  /-- Nothing stands there. -/
  | missing
  /-- A step leads through something else than a directory. -/
  | notDirectory
  /-- A directory stands there. -/
  | isDirectory
  /-- Something stands there already. -/
  | occupied
  /-- Following links comes to no end. -/
  | linkLoop
  /-- It cannot be resolved, since links on the way lead back to themselves. -/
  | unresolvable
  /-- A name or the whole path is too long. -/
  | nameTooLong
  /-- The path has a NUL in it. -/
  | embeddedNul
  /-- The path has no bytes. -/
  | unencodable
  deriving DecidableEq, Repr

/-- The error in words, where it is worded. -/
def PathError.message? : PathError → Option String
  | .embeddedNul => some "embedded null byte"
  | _ => none

/-- Where a path starts. -/
inductive Anchor where
  /-- The current directory. -/
  | here
  /-- The root of all files. -/
  | root
  /-- The root, written with two slashes. -/
  | doubleRoot
  deriving DecidableEq, Repr

/-- The slashes of a start. -/
def Anchor.text : Anchor → String
  | .here => ""
  | .root => "/"
  | .doubleRoot => "//"

/-- The start that so many slashes write: exactly two of them are kept. -/
def Anchor.ofSlashes : Nat → Anchor
  | 0 => .here
  | 2 => .doubleRoot
  | _ => .root

/-- A start and the steps from there. -/
structure Path where
  anchor : Anchor
  steps : List String
  deriving DecidableEq, Repr

namespace Path

/-- The pieces of a text between slashes, the empty ones included. -/
def pieces (s : String) : List String := (s.toList.splitOn '/').map String.ofList

/-- Whether a piece leads somewhere else. -/
def isStep (piece : String) : Bool := piece != "" && piece != "."

/-- The start that a text writes. -/
def anchorOf (cs : List Char) : Anchor := .ofSlashes (cs.takeWhile (· == '/')).length

/-- The path that a text writes. -/
def ofText (s : String) : Path := ⟨anchorOf s.toList, (pieces s).filter isStep⟩

/-- The text of a path. -/
def text (p : Path) : String :=
  if p.anchor == .here && p.steps.isEmpty then "."
  else p.anchor.text ++ "/".intercalate p.steps

/-- The path that a text writes, seen from a directory: a path that starts at the root stays as
it is. -/
def join (p : Path) (s : String) : Path :=
  let q := ofText s
  if q.anchor == .here then ⟨p.anchor, p.steps ++ q.steps⟩ else q

/-- The path with pieces of a text behind it. Empty pieces in front of others are slashes that the
text starts with, so that it starts anew. -/
def extend (p : Path) (pieces : List String) : Path :=
  let steps := pieces.filter isStep
  match (pieces.dropLast.takeWhile (· == "")).length with
  | 0 => ⟨p.anchor, p.steps ++ steps⟩
  | slashes => ⟨.ofSlashes slashes, steps⟩

/-- The last step. -/
def name (p : Path) : String := p.steps.getLast?.getD ""

/-- The path without its last step. -/
def parent (p : Path) : Path := ⟨p.anchor, p.steps.dropLast⟩

/-- What follows the last dot of the name, with the dot; a dot at the start or the end of the name
does not count. -/
def suffix (p : Path) : String :=
  let cs := p.name.toList
  let tail := (cs.reverse.takeWhile (· != '.')).reverse
  if tail.isEmpty || cs.length ≤ tail.length + 1 then "" else String.ofList ('.' :: tail)

example : (ofText "a/./b//c/").text = "a/b/c" := by decide +kernel

example : (ofText "//a").text = "//a" ∧ (ofText "///a").text = "/a" := by decide +kernel

example : ((ofText "a").join "../b").text = "a/../b" := by decide +kernel

example : ((ofText "/a").extend (pieces "b//c")).text = "/a/b/c" ∧
    ((ofText "/a").extend (pieces "/b")).text = "/b" := by decide +kernel

example : (ofText "x.tar.gz").suffix = ".gz" ∧ (ofText ".json").suffix = "" := by decide +kernel

end Path

end FormScaffold
