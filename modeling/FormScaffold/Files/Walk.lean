import FormScaffold.Files.Path
import FormScaffold.Files.Tree
import FormScaffold.Text.CodePoint

/-!
# Following paths

Two readings of a path. To use it, every step has to lead through directories, links are followed
at most forty times, and what the path names has to be there. To resolve it, links are followed and
steps upward taken back as far as that goes, and what is not there stays as it is written.

Main definitions: `FileTree.place`, `FileTree.find` and `FileTree.resolve`.
-/

namespace FormScaffold

/-- Where a path leads. -/
inductive Place where
  /-- Something stands there. -/
  | taken (loc : Location)
  /-- Nothing stands there, in a directory. -/
  | vacant (loc : Location)
  deriving DecidableEq, Repr

/-- The longest name, in bytes. -/
def maxNameSize : Nat := 255

/-- Paths are shorter than this, in bytes. -/
def maxPathSize : Nat := 4096

/-- The number of links that may be followed. -/
def maxLinks : Nat := 40

/-- Where the steps of a link's text start, when the link stands in the directory. -/
def linkStart (directory : Location) (target : String) : Location :=
  if target.toList.head? == some '/' then [] else directory

/-- Where a path starts, seen from the current directory. -/
def Path.start (p : Path) (current : Location) : Location :=
  if p.anchor == .here then current else []

/-- What is wrong with a text that is to name a file, whatever stands in the tree. -/
def textFlaw? (s : String) : Option PathError :=
  if !Text.isNamable s then some .unencodable
  else if s.toList.contains (Char.ofNat 0) then some .embeddedNul
  else none

/-- What is wrong with a path whatever stands in the tree. -/
def Path.flaw? (p : Path) : Option PathError :=
  match textFlaw? p.text with
  | some e => some e
  | none => if Text.weight p.text ≥ maxPathSize then some .nameTooLong else none

namespace FileTree

/-- Where the pieces of a path lead from a location, following at most so many links. A piece that
is no step asks for a directory. -/
def walk (t : FileTree) (links : Nat) (loc : Location) : List String → Except PathError Place
  | [] => .ok (.taken loc)
  | name :: rest =>
    if !t.isDirectory loc then .error .notDirectory
    else if !Path.isStep name then t.walk links loc rest
    else if name == ".." then t.walk links loc.dropLast rest
    else if Text.weight name > maxNameSize then .error .nameTooLong
    else match t.item? (loc ++ [name]) with
      | none => if rest.isEmpty then .ok (.vacant (loc ++ [name])) else .error .missing
      | some (.link target) =>
        match links with
        | 0 => .error .linkLoop
        | links + 1 => t.walk links (linkStart loc target) (Path.pieces target ++ rest)
      | some _ => t.walk links (loc ++ [name]) rest
termination_by steps => (links, steps.length)

/-- Where a path leads, seen from the current directory. -/
def place (t : FileTree) (current : Location) (p : Path) : Except PathError Place :=
  match p.flaw? with
  | some e => .error e
  | none => t.walk maxLinks (p.start current) p.steps

/-- The location of what a path names, and what that is. -/
def find (t : FileTree) (current : Location) (p : Path) : Except PathError (Location × Item) := do
  match ← t.place current p with
  | .vacant _ => .error .missing
  | .taken loc =>
    match t.item? loc with
    | none => .error .missing
    | some item => return (loc, item)

/-- How far a path was resolved. -/
inductive Resolution where
  /-- To the end. -/
  | full (loc : Location)
  /-- To a link that leads back to itself. What was still to be resolved is joined to the link as it
  is written, so that the path starts anew where a link's text has two slashes behind a name. -/
  | stuck (link : Location) (p : Path)
  /-- To a name that no file can have. -/
  | faulty (e : PathError)
  deriving DecidableEq, Repr

/-- The pieces of a path resolved from a location; the links on the way to here are open, and only
so many more can be. -/
def resolveSteps (t : FileTree) (depth : Nat) (opened : List Location) (loc : Location) :
    List String → Resolution
  | [] => .full loc
  | name :: rest =>
    if !Path.isStep name then t.resolveSteps depth opened loc rest
    else if name == ".." then t.resolveSteps depth opened loc.dropLast rest
    else match textFlaw? name with
    | some e => .faulty e
    | none =>
      match t.item? (loc ++ [name]) with
      | some (.link target) =>
        if opened.contains (loc ++ [name]) then
          .stuck (loc ++ [name]) (Path.extend ⟨.root, loc ++ [name]⟩ rest)
        else match depth with
          | 0 => .stuck (loc ++ [name]) (Path.extend ⟨.root, loc ++ [name]⟩ rest)
          | depth' + 1 =>
            match t.resolveSteps depth' ((loc ++ [name]) :: opened) (linkStart loc target)
                (Path.pieces target) with
            | .full loc' => t.resolveSteps (depth' + 1) opened loc' rest
            | .stuck link p => .stuck link (p.extend rest)
            | .faulty e => .faulty e
      | _ => t.resolveSteps depth opened (loc ++ [name]) rest
termination_by steps => (depth, steps.length)

/-- Steps with those upward taken back. -/
def plainSteps (steps : List String) : Location :=
  steps.foldl (fun loc name => if name == ".." then loc.dropLast else loc ++ [name]) []

/-- A resolved path, which has to be one that can be followed to an end. -/
def checkResolved (t : FileTree) (p : Path) : Except PathError Path :=
  match t.place [] p with
  | .error .linkLoop => .error .unresolvable
  | .error .unencodable => .error .unencodable
  | .error .embeddedNul => .error .embeddedNul
  | _ => .ok p

/-- The path that a path resolves to, seen from the current directory: it starts at the root, and
has no steps upward. -/
def resolve (t : FileTree) (current : Location) (p : Path) : Except PathError Path :=
  match t.resolveSteps t.items.length [] (p.start current) p.steps with
  | .full loc => t.checkResolved ⟨.root, loc⟩
  | .stuck _ p => t.checkResolved ⟨p.anchor, plainSteps p.steps⟩
  | .faulty e => .error e

end FileTree

end FormScaffold
