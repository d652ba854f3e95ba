import FormScaffold.Number.Reading
import FormScaffold.Value.Basic

/-!
# Kinds of plain scalars

A plain scalar without a tag is what its spelling says: null, a truth value, a whole or floating
number, a mark of merging, or else a text. Numbers may have underscores between their digits, and
parts to the base sixty with colons between them.

Main definitions: `Yaml.wholeForm?`, `Yaml.realForm?` and `Yaml.kindOfPlain`.
-/

namespace FormScaffold.Yaml

/-- The spellings of null. -/
def nullWords : List String := ["", "~", "null", "Null", "NULL"]

/-- A word as it may be spelled: small, with a capital, or in capitals. -/
def spellings (word : String) : List String :=
  [word, String.ofList (match word.toList with
    | [] => []
    | c :: cs => c.toUpper :: cs), String.ofList (word.toList.map Char.toUpper)]

/-- The words for true. -/
def trueWords : List String := ["yes", "true", "on"].flatMap spellings

/-- The words for false. -/
def falseWords : List String := ["no", "false", "off"].flatMap spellings

/-- Whether a character is a digit of a number's base or an underscore. -/
def isPlace (p : Char → Bool) (c : Char) : Bool := p c || c == '_'

/-- Whether a character is a digit to the base sixteen. -/
def isHex (c : Char) : Bool :=
  c.isDigit || ('a' ≤ c && c ≤ 'f') || ('A' ≤ c && c ≤ 'F')

/-- The value of a digit. -/
def digitOf (c : Char) : Nat :=
  if c.isDigit then c.toNat - 48 else if c.toNat < 97 then c.toNat - 55 else c.toNat - 87

/-- The number that digits write to a base; underscores do not count. -/
def numberOf (base : Nat) (cs : List Char) : Nat :=
  (cs.filter (· != '_')).foldl (fun n c => n * base + digitOf c) 0

/-- Whether the text is a part of a number to the base sixty, after the first one. -/
def isSixtieth : List Char → Bool
  | [a] => a.isDigit
  | [a, b] => '0' ≤ a && a ≤ '5' && b.isDigit
  | _ => false

/-- The number of parts to the base sixty. -/
def sixtieths (parts : List (List Char)) : Nat :=
  parts.foldl (fun n part => n * 60 + numberOf 10 part) 0

/-- Whether the text is a digit with digits and underscores after it. -/
def isDigits (cs : List Char) : Bool :=
  cs.head?.any Char.isDigit && cs.all (isPlace Char.isDigit)

/-- The whole number without a sign that the text writes. -/
def unsignedForm? (cs : List Char) : Option Nat :=
  match cs with
  | [] => none
  | ['0'] => some 0
  | '0' :: rest =>
    match rest with
    | 'b' :: ds =>
      if !ds.isEmpty && ds.all (isPlace fun c => c == '0' || c == '1') then some (numberOf 2 ds)
      else none
    | 'x' :: ds => if !ds.isEmpty && ds.all (isPlace isHex) then some (numberOf 16 ds) else none
    | ds => if ds.all (isPlace fun c => '0' ≤ c && c ≤ '7') then some (numberOf 8 ds) else none
  | cs =>
    let parts := cs.splitOn ':'
    if (parts.head?.any isDigits) && (parts.drop 1).all isSixtieth then some (sixtieths parts)
    else none

/-- The whole number that the text writes. -/
def wholeForm? (cs : List Char) : Option Int :=
  let (negative, rest) := Number.takeSign cs
  (unsignedForm? rest).map fun n => if negative then -n else n

/-- Whether the text is an exponent with its sign, or empty. -/
def isExponent : List Char → Bool
  | [] => true
  | e :: sign :: ds =>
    (e == 'e' || e == 'E') && (sign == '+' || sign == '-') && !ds.isEmpty && ds.all Char.isDigit
  | _ => false

/-- A floating number to the base sixty. -/
def sixtiethForm? (negative : Bool) (cs : List Char) : Option Real64 :=
  let (whole, rest) := cs.span (· != '.')
  let parts := whole.splitOn ':'
  match rest with
  | '.' :: fraction =>
    if parts.length ≥ 2 && (parts.head?.any isDigits) && (parts.drop 1).all isSixtieth &&
        fraction.all (isPlace Char.isDigit) then
      let ds := fraction.filter (· != '_')
      some (Real64.ofDecimal negative (sixtieths parts * Nat.pow 10 ds.length +
        numberOf 10 ds) (-ds.length))
    else none
  | _ => none

/-- The floating number that the text writes. -/
def realForm? (cs : List Char) : Option Real64 :=
  let (negative, body) := Number.takeSign cs
  let isSigned := body.length != cs.length
  let word := String.ofList body
  if (spellings "inf").any (fun s => "." ++ s == word) then some (.infinite negative)
  else if !isSigned && [".nan", ".NaN", ".NAN"].contains word then some .nan
  else
    let (whole, rest) := body.span (isPlace Char.isDigit)
    match rest with
    | '.' :: rest =>
      let (fraction, tail) := rest.span (isPlace Char.isDigit)
      if (isDigits whole || (whole.isEmpty && !isSigned && isDigits fraction)) && isExponent tail
      then Number.readReal? (cs.filter (· != '_'))
      else none
    | _ => sixtiethForm? negative body

/-- The kinds of scalars. -/
inductive Kind where
  | null
  | bool (b : Bool)
  | whole (n : Int)
  | real (x : Real64)
  /-- The key whose value is merged into a mapping. -/
  | merge
  /-- A mark that is a text as a key and has no meaning elsewhere. -/
  | bare
  | text
  deriving DecidableEq, Repr

/-- The kind of a plain scalar. -/
def kindOfPlain (s : String) : Kind :=
  if nullWords.contains s then .null
  else if trueWords.contains s then .bool true
  else if falseWords.contains s then .bool false
  else match realForm? s.toList, wholeForm? s.toList with
    | some x, _ => .real x
    | none, some n => .whole n
    | none, none => if s == "<<" then .merge else if s == "=" then .bare else .text

end FormScaffold.Yaml
