import FormScaffold.Expression.Basic
import FormScaffold.Value.Compare

/-!
# Judging an expression

An expression is judged against the fields of a document. A field that the document lacks equals
nothing and is in no list, so the negations of such tests hold; it has no order to anything.

Main definition: `Expression.holds`.
-/

namespace FormScaffold.Expression

/-- Whether both operands are there and equal. -/
def equal (l r : Option Value) : Bool :=
  match l, r with
  | some v, some w => v.same w
  | _, _ => false

/-- How two operands that have an order stand to each other. -/
def orderOf (l r : Option Value) : Option Ordering := do
  Value.order? (← l) (← r)

/-- The outcome of a comparison. -/
def Comparator.judge (op : Comparator) (l r : Option Value) : Bool :=
  match op with
  | .eq => equal l r
  | .neq => !equal l r
  | .lt => (orderOf l r).any (·.isLT)
  | .lte => (orderOf l r).any (·.isLE)
  | .gt => (orderOf l r).any (·.isGT)
  | .gte => (orderOf l r).any (·.isGE)

mutual

/-- The value of an operand; a field that is absent has none, a test is a truth value. -/
def operand (doc : Entries) : Expression → Option Value
  | .field name => doc.get? name
  | .literal v => some v
  | .compare op l r => some (.bool (Comparator.judge op (operand doc l) (operand doc r)))
  | .member negated l items =>
    let found := items.any fun v => equal (operand doc l) (some v)
    some (.bool (if negated then !found else found))
  | .all parts => some (.bool (holdsAll doc parts))
  | .any parts => some (.bool (holdsSome doc parts))
  | .not part => some (.bool (!(operand doc part).any Value.truthy))

/-- Whether every part counts as true. -/
def holdsAll (doc : Entries) : List Expression → Bool
  | [] => true
  | e :: es => (operand doc e).any Value.truthy && holdsAll doc es

/-- Whether some part counts as true. -/
def holdsSome (doc : Entries) : List Expression → Bool
  | [] => false
  | e :: es => (operand doc e).any Value.truthy || holdsSome doc es

end

/-- Whether the expression holds of a document. -/
def holds (e : Expression) (doc : Entries) : Bool := (operand doc e).any Value.truthy

/-- A field holds when something that counts stands under its name. -/
@[simp] theorem holds_field (name : String) (doc : Entries) :
    (field name).holds doc = (doc.get? name).any Value.truthy := by
  simp [holds, operand]

/-- A literal holds when its value counts. -/
@[simp] theorem holds_literal (v : Value) (doc : Entries) : (literal v).holds doc = v.truthy := by
  simp [holds, operand]

/-- A negation holds when what it denies does not. -/
@[simp] theorem holds_not (e : Expression) (doc : Entries) :
    (Expression.not e).holds doc = !e.holds doc := by
  simp [holds, operand]

end FormScaffold.Expression
