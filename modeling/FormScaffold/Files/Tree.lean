/-!
# File trees

A file tree holds directories, files and symbolic links at locations. A location is the list of the
names on the way down from the root, which is a directory that is always there.

Main definitions: `Item`, `FileTree`, `FileTree.item?` and `FileTree.put`.
-/

namespace FormScaffold

/-- The names on the way down from the root. -/
abbrev Location := List String

/-- What stands at a location. -/
inductive Item where
  | directory
  | file (bytes : ByteArray)
  /-- A symbolic link with its text. -/
  | link (target : String)

/-- Whether the item is a directory. -/
def Item.isDirectory : Item → Bool
  | .directory => true
  | _ => false

/-- Items at locations other than the root. -/
structure FileTree where
  items : List (Location × Item)

namespace FileTree

/-- The tree of the root alone. -/
def empty : FileTree := ⟨[]⟩

/-- What stands at a location. -/
def item? (t : FileTree) (loc : Location) : Option Item :=
  if loc = [] then some .directory else t.items.lookup loc

/-- Whether a directory stands at the location. -/
def isDirectory (t : FileTree) (loc : Location) : Bool := (t.item? loc).any Item.isDirectory

/-- The items with one in place of what stood at its location. -/
def putItem (loc : Location) (item : Item) : List (Location × Item) → List (Location × Item)
  | [] => [(loc, item)]
  | (l, old) :: rest => if l = loc then (l, item) :: rest else (l, old) :: putItem loc item rest

/-- The tree with an item at a location, in place of what stood there. -/
def put (t : FileTree) (loc : Location) (item : Item) : FileTree := ⟨putItem loc item t.items⟩

/-- The root is always a directory. -/
@[simp] theorem item?_nil (t : FileTree) : t.item? [] = some .directory := rfl

/-- After an item was put somewhere it is found there, and all else where it was. -/
theorem lookup_putItem (loc l : Location) (item : Item) (items : List (Location × Item)) :
    (putItem loc item items).lookup l = if l = loc then some item else items.lookup l := by
  induction items with
  | nil => by_cases h : l = loc <;> simp [putItem, List.lookup_cons, h, beq_eq_false_iff_ne.mpr]
  | cons e rest ih =>
    obtain ⟨k, old⟩ := e
    by_cases hl : l = k <;> by_cases hk : k = loc <;>
      simp_all [putItem, List.lookup_cons, beq_eq_false_iff_ne.mpr]

/-- An item is found where it was put, and nothing else changes. -/
theorem item?_put (t : FileTree) {loc : Location} (h : loc ≠ []) (item : Item) (l : Location) :
    (t.put loc item).item? l = if l = loc then some item else t.item? l := by
  by_cases hl : l = []
  · subst hl
    simp [Ne.symm h]
  · simp [item?, put, hl, lookup_putItem]

end FileTree

end FormScaffold
