import FormScaffold.Value.Compare

/-!
# Lists keyed by values

Fields and roles are named by raw values, nearly always texts. What is kept by such a name is kept
in order; a name that is put again keeps its place.
-/

namespace FormScaffold

/-- Things under keys, in the order in which the keys first came. -/
abbrev Keyed (α : Type) := List (Value × α)

namespace Keyed

variable {α β : Type}

/-- What is under a key. -/
def get? (m : Keyed α) (key : Value) : Option α := (m.find? (·.1.same key)).map (·.2)

/-- Whether the key is there. -/
def has (m : Keyed α) (key : Value) : Bool := m.any (·.1.same key)

/-- Puts a thing under a key: in place when the key is there, else at the end. -/
def put : Keyed α → Value → α → Keyed α
  | [], key, a => [(key, a)]
  | (k, old) :: rest, key, a => if k.same key then (k, a) :: rest else (k, old) :: put rest key a

/-- The things of a list under their keys; of repeated keys the last thing counts. -/
def ofList (pairs : List (Value × α)) : Keyed α :=
  pairs.foldl (fun m p => put m p.1 p.2) []

/-- The keys, in order. -/
def keys (m : Keyed α) : List Value := List.map (·.1) m

/-- The things changed one by one. -/
def mapValues (f : α → β) (m : Keyed α) : Keyed β := List.map (fun p => (p.1, f p.2)) m

/-- Nothing stands under no keys. -/
@[simp] theorem get?_nil (key : Value) : get? ([] : Keyed α) key = none := rfl

end Keyed

end FormScaffold
