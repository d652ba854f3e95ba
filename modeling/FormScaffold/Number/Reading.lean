import FormScaffold.Number.Real64
import FormScaffold.Text.Blank
import FormScaffold.Text.Digit

/-!
# Reading numbers

Numbers as people type them into a form: blanks around them, a sign, the digits of any script, and
single underscores between digits.

Main definitions: `readInt?` and `readReal?`.
-/

namespace FormScaffold.Number

open Text

/-- An optional sign; the result says whether it is a minus. -/
def takeSign : List Char → Bool × List Char
  | '-' :: rest => (true, rest)
  | '+' :: rest => (false, rest)
  | cs => (false, cs)

/-- The digits at the start of the text, where one underscore may stand between two digits, and
what follows them. -/
def takeDigits : List Char → List Char × List Char
  | c :: '_' :: d :: rest =>
    if isDigit c then
      if isDigit d then
        let (ds, left) := takeDigits (d :: rest)
        (c :: ds, left)
      else ([c], '_' :: d :: rest)
    else ([], c :: '_' :: d :: rest)
  | c :: rest =>
    if isDigit c then
      let (ds, left) := takeDigits rest
      (c :: ds, left)
    else ([], c :: rest)
  | [] => ([], [])

/-- The blanks that may stand around a number: all but the four information separators. -/
def isPadding (c : Char) : Bool := isBlank c && !(0x1C ≤ c.toNat && c.toNat ≤ 0x1F)

/-- How many digits a whole number may have. -/
def maxDigits : Nat := 4300

/-- A whole number and nothing else. -/
def readInt? (cs : List Char) : Option Int :=
  let (negative, rest) := takeSign (dropEnds isPadding cs)
  match takeDigits rest with
  | ([], _) => none
  | (ds, []) =>
    let n : Int := digitsValue ds
    if ds.length ≤ maxDigits then some (if negative then -n else n) else none
  | _ => none

/-- The part of a decimal after its digits: an exponent, or nothing. -/
def readExponent? : List Char → Option Int
  | [] => some 0
  | c :: rest =>
    if c == 'e' || c == 'E' then
      let (negative, rest) := takeSign rest
      match takeDigits rest with
      | ([], _) => none
      | (ds, []) =>
        let n : Int := digitsValue ds
        some (if negative then -n else n)
      | _ => none
    else none

/-- The part of a decimal after its whole digits: the digits after the point. -/
def takeFraction : List Char → List Char × List Char
  | '.' :: rest => takeDigits rest
  | cs => ([], cs)

/-- An unsigned decimal and nothing else. -/
def readDecimal? (negative : Bool) (cs : List Char) : Option Real64 :=
  let (whole, rest) := takeDigits cs
  let (fraction, rest) := takeFraction rest
  if whole.isEmpty && fraction.isEmpty then none
  else (readExponent? rest).map fun e =>
    Real64.ofDecimal negative (digitsValue (whole ++ fraction)) (e - fraction.length)

/-- A number, an infinity or the word for no number, and nothing else. -/
def readReal? (cs : List Char) : Option Real64 :=
  let (negative, rest) := takeSign (dropEnds isPadding cs)
  let word := String.ofList (rest.map Char.toLower)
  if word == "inf" || word == "infinity" then some (.infinite negative)
  else if word == "nan" then some .nan
  else readDecimal? negative rest

example : readInt? " +1_000 ".toList = some 1000 := by decide +kernel
example : readInt? "1__0".toList = none := by decide +kernel
example : readReal? "-.5e1".toList = some (Real64.ofInt (-5)) := by decide +kernel

end FormScaffold.Number
