import FormScaffold.Value.Basic

/-!
# Dependency expressions

A dependency expression says when a field is shown, required or locked. It compares fields of a
document with literals and joins such tests; it calls nothing and computes nothing.

Main definitions: `Expression`, its form as data (`Expression.toValue`) and the fields it mentions
(`Expression.fieldNames`).
-/

namespace FormScaffold

/-- The six comparisons. -/
inductive Comparator where
  | eq
  | neq
  | lt
  | lte
  | gt
  | gte
  deriving DecidableEq, Repr

/-- The word for a comparison in data. -/
def Comparator.word : Comparator → String
  | .eq => "eq"
  | .neq => "neq"
  | .lt => "lt"
  | .lte => "lte"
  | .gt => "gt"
  | .gte => "gte"

/-- An expression over the fields of a document. -/
inductive Expression where
  /-- The value of a field. -/
  | field (name : String)
  /-- A literal. -/
  | literal (value : Value)
  /-- A comparison of two operands. -/
  | compare (op : Comparator) (left right : Expression)
  /-- Whether the operand is among the items, or is not. -/
  | member (negated : Bool) (left : Expression) (items : List Value)
  /-- All of the parts hold. -/
  | all (parts : List Expression)
  /-- Some part holds. -/
  | any (parts : List Expression)
  /-- The part does not hold. -/
  | not (part : Expression)
  deriving Repr, Inhabited

namespace Expression

mutual

/-- The expression as data, as generated code reads it. -/
def toValue : Expression → Value
  | .field name => .record [("field", .text name)]
  | .literal v => .record [("literal", v)]
  | .compare op l r =>
    .record [("op", .text op.word), ("left", toValue l), ("right", toValue r)]
  | .member negated l items =>
    .record [("op", .text (if negated then "not_in" else "in")), ("left", toValue l),
      ("items", .list items)]
  | .all parts => .record [("op", .text "and"), ("children", .list (toValues parts))]
  | .any parts => .record [("op", .text "or"), ("children", .list (toValues parts))]
  | .not part => .record [("op", .text "not"), ("child", toValue part)]

/-- Several expressions as data. -/
def toValues : List Expression → List Value
  | [] => []
  | e :: es => toValue e :: toValues es

end

mutual

/-- The names of the fields in the expression, from left to right, with repetitions. -/
def mentions : Expression → List String
  | .field name => [name]
  | .literal _ => []
  | .compare _ l r => mentions l ++ mentions r
  | .member _ l _ => mentions l
  | .all parts => mentionsOf parts
  | .any parts => mentionsOf parts
  | .not part => mentions part

/-- The names of the fields in several expressions. -/
def mentionsOf : List Expression → List String
  | [] => []
  | e :: es => mentions e ++ mentionsOf es

end

/-- The names of the fields in the expression, each once, in order of first mention. -/
def fieldNames (e : Expression) : List String := e.mentions.eraseDups

mutual

/-- The number of levels of the tree; a leaf is one level. -/
def height : Expression → Nat
  | .field _ => 1
  | .literal _ => 1
  | .compare _ l r => max (height l) (height r) + 1
  | .member _ l _ => height l + 1
  | .all parts => heightOf parts + 1
  | .any parts => heightOf parts + 1
  | .not part => height part + 1

/-- The greatest height of several expressions. -/
def heightOf : List Expression → Nat
  | [] => 0
  | e :: es => max (height e) (heightOf es)

end

/-- A chain of one part is that part. -/
def ofChain (join : List Expression → Expression) : List Expression → Expression
  | [e] => e
  | es => join es

/-- A chain of one expression is this expression. -/
@[simp] theorem ofChain_singleton (join : List Expression → Expression) (e : Expression) :
    ofChain join [e] = e := rfl

end Expression

end FormScaffold
