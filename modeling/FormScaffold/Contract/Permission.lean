import FormScaffold.Value.Basic
import FormScaffold.Value.Fault
import FormScaffold.Value.Keyed

/-!
# Permissions

A role has permission rules at levels. At one level the last rule that says something about a
capability counts. Across levels a capability is granted when some level grants it and no higher
level denies it.

Main definitions: `said` (what the rules of a level say of a capability), `granted`, and
`mergePermissions`.
-/

namespace FormScaffold

/-- What a role may be allowed to do. -/
inductive Capability where
  | read
  | write
  | create
  | delete
  | submit
  | cancel
  | amend
  deriving DecidableEq, Repr

namespace Capability

/-- All capabilities, in the order in which they are listed. -/
def all : List Capability := [read, write, create, delete, submit, cancel, amend]

/-- The key of a capability in a rule. -/
def word : Capability → String
  | read => "read"
  | write => "write"
  | create => "create"
  | delete => "delete"
  | submit => "submit"
  | cancel => "cancel"
  | amend => "amend"

/-- Every capability is in the list of all. -/
theorem mem_all (c : Capability) : c ∈ all := by cases c <;> decide

end Capability

namespace Permission

/-- A rule with its level. -/
structure Rule where
  level : Int
  entries : Entries
  deriving Repr

/-- The level of a rule; zero where there is none. -/
def levelOf (rule : Entries) : Except Fault Int :=
  ((rule.get "permlevel").orElse (.int 0)).toIntOr 0

/-- A raw rule. -/
def Rule.ofValue (v : Value) : Except Fault Rule := do
  let es ← v.entries
  return ⟨← levelOf es, es⟩

/-- What a rule says of a capability: nothing when the key is absent or nothing is under it. -/
def Rule.verdict (r : Rule) (c : Capability) : Option Bool :=
  match r.entries.get c.word with
  | .null => none
  | v => some v.flag

/-- What the rules of a level say of a capability: the last one that says something counts. -/
def said (rules : List Rule) (level : Int) (c : Capability) : Option Bool :=
  ((rules.filter (·.level == level)).filterMap (·.verdict c)).getLast?

/-- The levels of the rules, each once. -/
def levels (rules : List Rule) : List Int := (rules.map (·.level)).eraseDups

/-- The levels at which the rules say `answer` of a capability. -/
def levelsSaying (rules : List Rule) (c : Capability) (answer : Bool) : List Int :=
  (levels rules).filter fun l => said rules l c == some answer

/-- Whether the rules of a role grant a capability. -/
def granted (rules : List Rule) (c : Capability) : Bool :=
  match (levelsSaying rules c true).max?, (levelsSaying rules c false).max? with
  | none, _ => false
  | some _, none => true
  | some grant, some deny => deny < grant

end Permission

/-- What a role is allowed to do. -/
abbrev Grants := Capability → Bool

/-- The grants as data. -/
def Grants.toValue (g : Grants) : Value :=
  .record (Capability.all.map fun c => (c.word, .bool (g c)))

/-- The grants that raw rules of one role give. -/
def mergeRules (rules : Value) : Except Fault Grants := do
  let vs ← rules.elementsOrNone
  return Permission.granted (← vs.mapM Permission.Rule.ofValue)

/-- Whether one key comes before or with another, for two texts or two numbers. -/
def keyLe? (a b : Value) : Option Bool :=
  match a, b with
  | .text s, .text t => some (decide (s ≤ t))
  | a, b =>
    match a.scalar?, b.scalar? with
    | some x, some y => some (x.compare? y != some .gt)
    | _, _ => none

/-- Whether all keys have an order among themselves. -/
def keysOrdered (keys : List Value) : Bool :=
  match keys with
  | [] => true
  | k :: rest => rest.all fun other => (keyLe? k other).isSome

/-- The keys in order. -/
def sortKeys (keys : List Value) : Except Fault (List Value) :=
  if keysOrdered keys then .ok (keys.mergeSort fun a b => (keyLe? a b).getD true)
  else .error .notOrdered

/-- The rules of each role merged, in the order of the roles; a role must have a name. -/
def mergePermissions (rulesByRole : Keyed Value) : Except Fault (Keyed Grants) := do
  let roles ← sortKeys (rulesByRole.keys.filter Value.truthy)
  roles.mapM fun role => do return (role, ← mergeRules ((rulesByRole.get? role).getD .null))

/-- One more rule for a role, after those it has. -/
def addRule (grouped : Keyed (List Entries)) (role : Value) (rule : Entries) :
    Keyed (List Entries) :=
  grouped.put role ((grouped.get? role).getD [] ++ [rule])

/-- The rules of a flat list by role; a rule without a role is left out. -/
def groupRules (rules : List Value) : Except Fault (Keyed (List Entries)) :=
  rules.foldlM (fun grouped v => do
    let rule ← v.entries
    let role := rule.get "role"
    if role.truthy then return addRule grouped (← role.key) rule else return grouped) []

/-- Raw rules by role; nothing stands for no rules. -/
def groupPermissions (rules : Value) : Except Fault (Keyed (List Entries)) := do
  groupRules (← rules.elementsOrNone)

end FormScaffold
