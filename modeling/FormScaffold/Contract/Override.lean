import FormScaffold.Contract.Warning

/-!
# Overrides

An override patches the attributes of one field by name; later patches win, attribute by attribute.
Of several fields with one name the last is patched. A patch of a field that does not exist is
passed over with a warning.

Main definitions: `patchRow` and `applyOverrides`.
-/

namespace FormScaffold

/-- A row with the attributes of a patch; the name of a field is never patched. -/
def patchRow (patch row : Entries) : Entries :=
  patch.foldl (fun r e => if e.1 == "fieldname" then r else r.put e.1 e.2) row

/-- Whether a row can be patched under a name. -/
def isCalled (name : Value) (row : Entries) : Bool :=
  (row.get "fieldname").truthy && (row.get "fieldname").same name

/-- The rows with the last one of a name changed; none when no row has the name. -/
def modifyLast (p : Entries → Bool) (f : Entries → Entries) :
    List Entries → Option (List Entries)
  | [] => none
  | row :: rows =>
    match modifyLast p f rows with
    | some changed => some (row :: changed)
    | none => if p row then some (f row :: rows) else none

/-- The rows after one patch. -/
def applyPatch (rows : List Entries) (patch : Entries) : List Entries × List Warning :=
  let name := patch.get "fieldname"
  match modifyLast (isCalled name) (patchRow patch) rows with
  | some changed => (changed, [])
  | none => (rows, [.unknownOverride name])

/-- The rows after several raw patches, in order. -/
def applyPatches (rows : List Entries) : List Value → Except Fault (List Entries × List Warning)
  | [] => .ok (rows, [])
  | v :: vs => do
    let patch ← v.entries
    let _ ← (patch.get "fieldname").key
    let (rows, first) := applyPatch rows patch
    let (rows, rest) ← applyPatches rows vs
    return (rows, first ++ rest)

/-- Whether the name of a row, when it has one, can be looked up. -/
def checkName (row : Entries) : Except Fault Unit := do
  let name := row.get "fieldname"
  if name.truthy then
    let _ ← name.key

/-- The raw fields with the overrides applied. -/
def applyOverrides (fields overrides : Value) : Except Fault (List Entries × List Warning) := do
  let rows ← (← fields.elementsOrNone).mapM Value.asRecord
  rows.forM checkName
  applyPatches rows (← overrides.elementsOrNone)

end FormScaffold
