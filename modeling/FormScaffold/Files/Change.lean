import FormScaffold.Files.Walk

/-!
# Changes of a file tree

A change that makes directories on its way may end early; what it made until then stays.

Main definitions: `FileTree.Attempt`, `FileTree.attemptDirectories`, `FileTree.write` and
`FileTree.attemptFile`.
-/

namespace FormScaffold.FileTree

/-- Where the last step of a path leads from its directory; a link there is not followed. -/
def entry (t : FileTree) (current : Location) (p : Path) : Except PathError Location := do
  let (loc, item) ← t.find current p.parent
  if item.isDirectory then return loc ++ [p.name] else .error .notDirectory

/-- Whether a link stands at the end of a path. -/
def endsInLink (t : FileTree) (current : Location) (p : Path) : Bool :=
  match (t.entry current p).map t.item? with
  | .ok (some (.link _)) => true
  | _ => false

/-- The tree with a directory at the end of the path, when its parent is there; `onWay` says whether
the path goes on. A link to nothing stays in the way. -/
def makeDirectory (t : FileTree) (current : Location) (onWay : Bool) (p : Path) :
    Except PathError FileTree :=
  match t.place current p with
  | .ok (.vacant loc) =>
    if t.endsInLink current p then .error .occupied else .ok (t.put loc .directory)
  | .ok (.taken loc) =>
    if t.isDirectory loc then .ok t else .error (if onWay then .notDirectory else .occupied)
  | .error e =>
    .error (if (!onWay || e == .missing) && t.endsInLink current p then .occupied else e)

/-- A tree as far as a change got, and the error that ended the change early. -/
structure Attempt where
  tree : FileTree
  error? : Option PathError

/-- Makes the directories along the steps one after another; the steps that are done are there. The
directories that were made before an error stay. -/
def makeAlong (t : FileTree) (current : Location) (anchor : Anchor) (done : List String) :
    List String → Attempt
  | [] => ⟨t, none⟩
  | name :: rest =>
    match t.makeDirectory current (!rest.isEmpty) ⟨anchor, done ++ [name]⟩ with
    | .ok t => t.makeAlong current anchor (done ++ [name]) rest
    | .error e => ⟨t, some e⟩

/-- The first step of a way is made, and then the others. -/
theorem makeAlong_cons (t : FileTree) (current : Location) (anchor : Anchor)
    (done rest : List String) (name : String) :
    t.makeAlong current anchor done (name :: rest) =
      match t.makeDirectory current (!rest.isEmpty) ⟨anchor, done ++ [name]⟩ with
      | .ok t => t.makeAlong current anchor (done ++ [name]) rest
      | .error e => ⟨t, some e⟩ := by rfl

/-- Makes the directory of a path and all directories on the way there. -/
def attemptDirectories (t : FileTree) (current : Location) (p : Path) : Attempt :=
  match p.flaw? with
  | some e => ⟨t, some e⟩
  | none => t.makeAlong current p.anchor [] p.steps

/-- The tree with a file at the end of the path; a file that is there is replaced. -/
def write (t : FileTree) (current : Location) (p : Path) (bytes : ByteArray) :
    Except PathError FileTree := do
  match ← t.place current p with
  | .vacant loc => return t.put loc (.file bytes)
  | .taken loc => if t.isDirectory loc then .error .isDirectory else return t.put loc (.file bytes)

/-- Makes the directories on the way to a path and puts a file at its end. -/
def attemptFile (t : FileTree) (current : Location) (p : Path) (bytes : ByteArray) : Attempt :=
  let made := t.attemptDirectories current p.parent
  match made.error? with
  | some e => ⟨made.tree, some e⟩
  | none =>
    match made.tree.write current p bytes with
    | .ok t => ⟨t, none⟩
    | .error e => ⟨made.tree, some e⟩

end FormScaffold.FileTree
