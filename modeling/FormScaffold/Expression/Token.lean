import FormScaffold.Expression.Basic
import FormScaffold.Text.Blank
import FormScaffold.Text.Digit
import FormScaffold.Text.Letter

/-!
# Tokens of an expression

Connectives and negation have a word and a sign (`and` and `&&`, `or` and `||`, `not` and `!`);
equality and inequality have two signs each. A token remembers its spelling for messages and where
it starts.

Main definitions: `Lexeme`, `Token` and the scanner `scanTokens`, which names the place of the first
character that starts no token.
-/

namespace FormScaffold.Expression

open Text

/-- Brackets, the comma and the point. -/
inductive Mark where
  | openGroup
  | closeGroup
  | openList
  | closeList
  | comma
  | point
  deriving DecidableEq, Repr

/-- How a mark is written. -/
def Mark.spelling : Mark → String
  | .openGroup => "("
  | .closeGroup => ")"
  | .openList => "["
  | .closeList => "]"
  | .comma => ","
  | .point => "."

/-- What a token is. -/
inductive Lexeme where
  | literal (value : Value)
  | name (text : String)
  | conj (spelling : String)
  | disj (spelling : String)
  | neg (spelling : String)
  | within
  | comparator (op : Comparator) (spelling : String)
  | mark (m : Mark)
  deriving Repr, Inhabited

namespace Lexeme

/-- The class of a token, as messages and listings name it. -/
def kind : Lexeme → String
  | .literal _ => "literal"
  | .name _ => "name"
  | .conj _ => "and"
  | .disj _ => "or"
  | .neg _ => "not"
  | .within => "in"
  | .comparator _ spelling => spelling
  | .mark m => m.spelling

/-- The value of a literal; the spelling of every other token. -/
def shown : Lexeme → Value
  | .literal v => v
  | .name text => .text text
  | .conj spelling => .text spelling
  | .disj spelling => .text spelling
  | .neg spelling => .text spelling
  | .within => .text "in"
  | .comparator _ spelling => .text spelling
  | .mark m => .text m.spelling

end Lexeme

/-- A lexeme and the place of its first character. -/
structure Token where
  lexeme : Lexeme
  position : Nat
  deriving Repr, Inhabited

/-- The words that are literals. -/
def literalWord? (word : String) : Option Value :=
  if word == "true" || word == "True" then some (.bool true)
  else if word == "false" || word == "False" then some (.bool false)
  else if word == "null" || word == "None" then some .null
  else none

/-- What a word stands for. -/
def Lexeme.ofWord (word : String) : Lexeme :=
  match literalWord? word with
  | some v => .literal v
  | none =>
    if word == "and" then .conj word
    else if word == "or" then .disj word
    else if word == "not" then .neg word
    else if word == "in" then .within
    else .name word

/-- The signs, longer ones first. -/
def signs : List (String × Lexeme) :=
  [("===", .comparator .eq "==="), ("!==", .comparator .neq "!=="), ("==", .comparator .eq "=="),
    ("!=", .comparator .neq "!="), ("<=", .comparator .lte "<="), (">=", .comparator .gte ">="),
    ("&&", .conj "&&"), ("||", .disj "||"), ("<", .comparator .lt "<"),
    (">", .comparator .gt ">"), ("!", .neg "!"), ("(", .mark .openGroup),
    (")", .mark .closeGroup), ("[", .mark .openList), ("]", .mark .closeList),
    (",", .mark .comma), (".", .mark .point)]

/-- The sign at the start of the text, and what follows it. -/
def takeSign? (cs : List Char) : Option (Lexeme × List Char) :=
  (signs.find? fun s => s.1.toList.isPrefixOf cs).map fun s => (s.2, cs.drop s.1.toList.length)

/-- The digits at the start of the text, when there are any, and what follows them. -/
def takeDigits? (cs : List Char) : Option (List Char × List Char) :=
  match cs.span isDigit with
  | ([], _) => none
  | (ds, rest) => some (ds, rest)

/-- A point with digits after it. -/
def takeFraction : List Char → Option (List Char) × List Char
  | '.' :: rest =>
    match takeDigits? rest with
    | some (ds, left) => (some ds, left)
    | none => (none, '.' :: rest)
  | cs => (none, cs)

/-- The digits of an exponent with their sign. -/
def takePower? (cs : List Char) : Option (Int × List Char) :=
  match cs with
  | '-' :: rest => (takeDigits? rest).map fun r => (-(digitsValue r.1 : Int), r.2)
  | '+' :: rest => (takeDigits? rest).map fun r => ((digitsValue r.1 : Int), r.2)
  | rest => (takeDigits? rest).map fun r => ((digitsValue r.1 : Int), r.2)

/-- A letter `e` with an exponent after it. -/
def takeExponent : List Char → Option Int × List Char
  | c :: rest =>
    if c == 'e' || c == 'E' then
      match takePower? rest with
      | some (n, left) => (some n, left)
      | none => (none, c :: rest)
    else (none, c :: rest)
  | [] => (none, [])

/-- A number without its sign: whole unless it has a fraction or an exponent. -/
def takeUnsigned? (negative : Bool) (cs : List Char) : Option (Lexeme × List Char) := do
  let (whole, rest) ← takeDigits? cs
  let (fraction, rest) := takeFraction rest
  let (power, rest) := takeExponent rest
  if fraction.isNone && power.isNone then
    let n : Int := digitsValue whole
    return (.literal (.int (if negative then -n else n)), rest)
  else
    let places := fraction.getD []
    let x := Real64.ofDecimal negative (digitsValue (whole ++ places))
      (power.getD 0 - places.length)
    return (.literal (.real x), rest)

/-- A number with an optional minus. -/
def takeNumber? : List Char → Option (Lexeme × List Char)
  | '-' :: rest => takeUnsigned? true rest
  | cs => takeUnsigned? false cs

/-- The character that an escape of one letter stands for; other letters stand for themselves. -/
def unescape (c : Char) : Char :=
  if c == 'n' then '\n' else if c == 't' then '\t' else if c == 'r' then '\r' else c

/-- The characters of a text literal, read after its opening quote, and what follows its closing
quote. A backslash may stand before any character but a line feed. -/
def takeText? (quote : Char) : List Char → Option (List Char × List Char)
  | [] => none
  | '\\' :: c :: rest =>
    if c == '\n' then none else (takeText? quote rest).map fun r => (unescape c :: r.1, r.2)
  | c :: rest =>
    if c == quote then some ([], rest)
    else if c == '\\' then none
    else (takeText? quote rest).map fun r => (c :: r.1, r.2)

/-- A text literal in either kind of quotes. -/
def takeLiteralText? : List Char → Option (Lexeme × List Char)
  | c :: rest =>
    if c == '\'' || c == '"' then
      (takeText? c rest).map fun r => (.literal (.text (String.ofList r.1)), r.2)
    else none
  | [] => none

/-- A word, and what follows it. -/
def takeWord? : List Char → Option (Lexeme × List Char)
  | c :: rest =>
    if isNameStart c then
      let (more, left) := rest.span isNameChar
      some (Lexeme.ofWord (String.ofList (c :: more)), left)
    else none
  | [] => none

/-- The token at the start of the text, and what follows it. -/
def takeLexeme? (cs : List Char) : Option (Lexeme × List Char) :=
  takeNumber? cs <|> takeLiteralText? cs <|> takeWord? cs <|> takeSign? cs

/-- The tokens of a text whose first character has the given place, or the place of what is no
token. -/
def scanTokens (position : Nat) (cs : List Char) : Except Nat (List Token) :=
  match cs with
  | [] => .ok []
  | c :: rest =>
    if isBlank c then scanTokens (position + 1) rest
    else
      match takeLexeme? (c :: rest) with
      | none => .error position
      | some (lexeme, left) =>
        if left.length ≤ rest.length then
          (scanTokens (position + ((c :: rest).length - left.length)) left).map
            (⟨lexeme, position⟩ :: ·)
        else .error position
  termination_by cs.length

end FormScaffold.Expression
