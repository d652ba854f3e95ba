import FormScaffold.Expression.Error

/-!
# Reading an expression

Disjunctions hold conjunctions, conjunctions hold negations, and a negation ends in a comparison of
two operands or in a membership test; an operand is a literal, a field, or a group. Groups and
negations may stand inside one another up to a fixed depth, and each takes one from the depth that
is left, so reading ends.

Every part of an expression takes at least one token; the readers return what is left together
with the fact that it is shorter.

Main definitions: `Expression.ofTokens` and `Expression.parse`.
-/

namespace FormScaffold.Expression

/-- How many groups and negations may stand inside one another. -/
def maxDepth : Nat := 32

/-- How long a text may be. -/
def maxLength : Nat := 2000

/-- Why reading stopped, and the tokens that were left. -/
structure Refusal where
  cause : Cause
  rest : List Token
  deriving Repr

/-- Tokens that are left after reading from `ts`. -/
abbrev Rest (ts : List Token) := { rest : List Token // rest.length < ts.length }

/-- A reader of a part of an expression. -/
abbrev Reader (α : Type) := (ts : List Token) → Except Refusal (α × Rest ts)

/-- The token that was due is missing. -/
def expected (kind : String) (ts : List Token) : Refusal :=
  ⟨.expected kind (ts.head?.map (·.lexeme)), ts⟩

/-- What may not follow a field. -/
def afterField : List Token → Option Cause
  | ⟨.mark .point, _⟩ :: _ => some .attribute
  | ⟨.mark .openGroup, _⟩ :: _ => some .call
  | ⟨.mark .openList, _⟩ :: _ => some .index
  | _ => none

/-- A field whose name was read already. -/
def fieldBefore (name : String) {ts : List Token} (rest : Rest ts) :
    Except Refusal (Expression × Rest ts) :=
  match afterField rest.1 with
  | some cause => .error ⟨cause, rest.1⟩
  | none => .ok (.field name, rest)

/-- A field that starts with the word `name`: `doc.x` is the field `x`. -/
def readField (name : String) {ts : List Token} (rest : Rest ts) :
    Except Refusal (Expression × Rest ts) :=
  if name == "doc" then
    match rest.1, rest.2 with
    | ⟨.mark .point, _⟩ :: ⟨.name inner, _⟩ :: left, h => fieldBefore inner ⟨left, by grind⟩
    | ⟨.mark .point, _⟩ :: left, _ => .error (expected "name" left)
    | _, _ => fieldBefore name rest
  else fieldBefore name rest

/-- The items of a list up to its closing bracket; a comma may follow the last item. -/
def readItems : Reader (List Value)
  | [] => .error ⟨.listItem, []⟩
  | ⟨.mark .closeList, _⟩ :: rest => .ok ([], ⟨rest, by simp⟩)
  | ⟨.literal v, _⟩ :: ⟨.mark .comma, _⟩ :: rest => do
    let (vs, ⟨left, h⟩) ← readItems rest
    return (v :: vs, ⟨left, by grind⟩)
  | ⟨.literal v, _⟩ :: ⟨.mark .closeList, _⟩ :: rest => .ok ([v], ⟨rest, by grind⟩)
  | ⟨.literal _, _⟩ :: rest => .error ⟨.listSeparator, rest⟩
  | t :: rest => .error ⟨.listItem, t :: rest⟩

/-- A list of literals in brackets. -/
def readList : Reader (List Value)
  | ⟨.mark .openList, _⟩ :: rest => do
    let (vs, ⟨left, h⟩) ← readItems rest
    return (vs, ⟨left, by grind⟩)
  | ts => .error (expected "[" ts)

/-- A literal, a field, or a group whose inside `inner` reads. -/
def readOperand (inner : Reader Expression) : Reader Expression
  | ⟨.literal v, _⟩ :: rest => .ok (.literal v, ⟨rest, by simp⟩)
  | ⟨.name name, _⟩ :: rest => readField name ⟨rest, by simp⟩
  | ⟨.mark .openGroup, _⟩ :: rest => do
    let (e, ⟨left, h⟩) ← inner rest
    match left, h with
    | ⟨.mark .closeGroup, _⟩ :: after, h => return (e, ⟨after, by grind⟩)
    | after, _ => .error (expected ")" after)
  | [] => .error ⟨.ending, []⟩
  | t :: rest => .error ⟨.token t.lexeme, t :: rest⟩

/-- An operand alone, or compared with another one, or tested against a list. -/
def readComparison (inner : Reader Expression) : Reader Expression := fun ts => do
  let (l, ⟨rest, h⟩) ← readOperand inner ts
  match rest, h with
  | ⟨.comparator op _, _⟩ :: after, h =>
    let (r, ⟨left, h'⟩) ← readOperand inner after
    return (.compare op l r, ⟨left, by grind⟩)
  | ⟨.within, _⟩ :: after, h =>
    let (vs, ⟨left, h'⟩) ← readList after
    return (.member false l vs, ⟨left, by grind⟩)
  | ⟨.neg _, _⟩ :: ⟨.within, _⟩ :: after, h =>
    let (vs, ⟨left, h'⟩) ← readList after
    return (.member true l vs, ⟨left, by grind⟩)
  | rest, h => return (l, ⟨rest, h⟩)

/-- Parts joined by the tokens that `joins` accepts. -/
def readChain (joins : Lexeme → Bool) (part : Reader Expression) : Reader (List Expression) :=
  fun ts => do
    let (e, ⟨rest, h⟩) ← part ts
    match rest, h with
    | t :: after, h =>
      if joins t.lexeme then
        let (es, ⟨left, h'⟩) ← readChain joins part after
        return (e :: es, ⟨left, by grind⟩)
      else return ([e], ⟨t :: after, h⟩)
    | [], h => return ([e], ⟨[], h⟩)
  termination_by ts => ts.length
  decreasing_by grind

/-- Whether the token joins a conjunction. -/
def Lexeme.isConj : Lexeme → Bool
  | .conj _ => true
  | _ => false

/-- Whether the token joins a disjunction. -/
def Lexeme.isDisj : Lexeme → Bool
  | .disj _ => true
  | _ => false

/-- A conjunction of what `part` reads. -/
def readConjunction (part : Reader Expression) : Reader Expression := fun ts => do
  let (es, rest) ← readChain Lexeme.isConj part ts
  return (ofChain .all es, rest)

/-- A disjunction of conjunctions of what `part` reads. -/
def readDisjunction (part : Reader Expression) : Reader Expression := fun ts => do
  let (es, rest) ← readChain Lexeme.isDisj (readConjunction part) ts
  return (ofChain .any es, rest)

/-- Nothing may be nested deeper. -/
def tooDeep : Reader Expression := fun ts => .error ⟨.tooDeep, ts⟩

/-- A negation or a comparison, with so many levels of nesting left. -/
def readNegation : Nat → Reader Expression
  | 0, ⟨.neg _, _⟩ :: rest => .error ⟨.tooDeep, rest⟩
  | 0, ts => readComparison tooDeep ts
  | depth + 1, ⟨.neg _, _⟩ :: rest => do
    let (e, ⟨left, h⟩) ← readNegation depth rest
    return (.not e, ⟨left, by grind⟩)
  | depth + 1, ts => readComparison (readDisjunction (readNegation depth)) ts

/-- The expression that all of the tokens make up. -/
def ofTokens (ts : List Token) : Except Refusal Expression := do
  match ← readDisjunction (readNegation maxDepth) ts with
  | (e, ⟨[], _⟩) => return e
  | (_, ⟨t :: rest, _⟩) => .error ⟨.token t.lexeme, t :: rest⟩

/-- A refusal in its text: at the first token that was left, or at the end. -/
def Refusal.toError (r : Refusal) (text : List Char) : ParseError :=
  let before := (r.rest.head?.map fun t => text.take t.position).getD text
  ⟨r.cause, Text.size before, String.ofList text⟩

/-- The tokens of a whole text. -/
def tokens (text : List Char) : Except ParseError (List Token) :=
  match scanTokens 0 text with
  | .ok ts => .ok ts
  | .error position =>
    let (before, rest) := text.splitAt position
    .error ⟨.character (String.ofList (Text.front 1 rest)), Text.size before, String.ofList text⟩

/-- The text without blanks around it and without the word `eval:` that may introduce it. -/
def normalize (cs : List Char) : List Char :=
  let text := Text.trim cs
  if "eval:".toList.isPrefixOf text then Text.trim (text.drop 5) else text

/-- The expression that a text writes. -/
def parseText (s : String) : Except ParseError Expression := do
  let text := normalize s.toList
  if text.isEmpty then .error ⟨.blank, 0, s⟩
  else if Text.size text > maxLength then
    .error ⟨.tooLong, maxLength, String.ofList (Text.front 40 text ++ "...".toList)⟩
  else
    match ofTokens (← tokens text) with
    | .ok e => .ok e
    | .error r => .error (r.toError text)

/-- The expression that a value writes; only a text writes one. -/
def parse : Value → Except ParseError Expression
  | .text s => parseText s
  | v => .error ⟨.notText, 0, v.quoted⟩

end FormScaffold.Expression
