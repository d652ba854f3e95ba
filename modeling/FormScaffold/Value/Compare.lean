import FormScaffold.Value.Basic

/-!
# Equality and order of values

Numbers are compared by value whatever their kind, and a truth value counts as the number zero or
one; lists are compared place by place and records key by key, in any order. Only two numbers or
two texts have an order, and texts are ordered by code point.

Main definitions: `Value.same` and `Value.order?`.
-/

namespace FormScaffold.Value

/-- A number on the common scale of whole and floating numbers. -/
inductive Scalar where
  | int (n : Int)
  | real (x : Real64)
  deriving DecidableEq

/-- The order of two numbers by value; none when one of them is not a number. -/
def Scalar.compare? : Scalar → Scalar → Option Ordering
  | .int a, .int b => some (Ord.compare a b)
  | .int a, .real y => (y.compareInt? a).map Ordering.swap
  | .real x, .int b => x.compareInt? b
  | .real x, .real y => x.compare? y

/-- The number that a value equals, for numbers and truth values. -/
def scalar? : Value → Option Scalar
  | .bool b => some (.int b.toNat)
  | .int n => some (.int n)
  | .real x => some (.real x)
  | _ => none

/-- The number that a value is; a truth value is none. -/
def number? : Value → Option Scalar
  | .bool _ => none
  | v => v.scalar?

/-- Whether the value is a number or a truth value equal to the number. -/
def sameScalar (a : Scalar) (w : Value) : Bool :=
  match w.scalar? with
  | some b => a.compare? b == some .eq
  | none => false

mutual

/-- Equality of values by content. -/
def same : Value → Value → Bool
  | .null, w => w.isNull
  | .bool b, w => sameScalar (.int b.toNat) w
  | .int n, w => sameScalar (.int n) w
  | .real x, w => sameScalar (.real x) w
  | .text s, w => match w with
    | .text t => s == t
    | _ => false
  | .list xs, w => match w with
    | .list ys => sameItems xs ys
    | _ => false
  | .record es, w => match w with
    | .record fs => es.length == fs.length && sameEntries es fs
    | _ => false

/-- Equality of lists, place by place. -/
def sameItems : List Value → List Value → Bool
  | [], ys => ys.isEmpty
  | x :: xs, ys => match ys with
    | [] => false
    | y :: ys => same x y && sameItems xs ys

/-- Whether each entry of the first record has an equal one in the second. -/
def sameEntries : List (String × Value) → Entries → Bool
  | [], _ => true
  | (k, v) :: es, fs =>
    (match fs.get? k with
      | some w => same v w
      | none => false) && sameEntries es fs

end

/-- The order of two values: two numbers by value, two texts by code point, else none. -/
def order? (v w : Value) : Option Ordering :=
  match v, w with
  | .text s, .text t => some (compare s t)
  | _, _ =>
    match v.number?, w.number? with
    | some a, some b => a.compare? b
    | _, _ => none

end FormScaffold.Value
