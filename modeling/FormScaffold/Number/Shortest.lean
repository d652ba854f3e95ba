import FormScaffold.Number.Real64

/-!
# Shortest decimal text

A number is written with the fewest digits that read back as the same number, and among decimals of
that length with the nearest one. For each count of digits only the two decimals around the value
can be the answer.

Main definitions: `Real64.shortest` finds the digits, `Real64.toText` lays them out.
-/

namespace FormScaffold.Real64

/-- A positive finite number as a quotient. -/
def quotient (mantissa : Nat) (exponent : Int) : Nat × Nat := scaled 2 mantissa 1 exponent

/-- The least `k` with `num / den < 10 ^ k`, for a positive quotient. -/
def decimalSize (num den : Nat) : Int :=
  let guess : Int := (digitCount num : Int) - digitCount den
  let s := scaled 10 num den (-guess)
  if s.1 < s.2 then guess else guess + 1

/-- A positive decimal: `digits * 10 ^ exponent`. -/
structure Decimal where
  digits : Nat
  exponent : Int
  deriving DecidableEq, Repr

/-- The decimals next to the quotient, below and above, in units of `10 ^ p`, the nearer one first;
of two equally near ones the even one is first. -/
def neighbours (num den : Nat) (p : Int) : List Decimal :=
  let (n, d) := scaled 10 num den (-p)
  let q := n / d
  let r := n % d
  if r == 0 then [⟨q, p⟩]
  else if 2 * r < d || (2 * r == d && q % 2 == 0) then [⟨q, p⟩, ⟨q + 1, p⟩]
  else [⟨q + 1, p⟩, ⟨q, p⟩]

/-- Enough digits to tell any two numbers apart. -/
def maxDigits : Nat := 17

/-- The decimal of `count` digits or fewer that reads back as the number, if there is one. -/
def decimalOf? (mantissa : Nat) (exponent : Int) (count : Nat) : Option Decimal :=
  let (num, den) := quotient mantissa exponent
  (neighbours num den (decimalSize num den - count)).find? fun d =>
    ofDecimal false d.digits d.exponent == .finite false mantissa exponent

/-- The nearest of the shortest decimals that read back as the positive number. -/
def shortest (mantissa : Nat) (exponent : Int) : Decimal :=
  ((List.range maxDigits).findSome? fun k => decimalOf? mantissa exponent (k + 1)).getD
    ⟨mantissa, exponent⟩

/-- The decimal without zeros at the end of its digits. -/
def Decimal.digitText (d : Decimal) : List Char :=
  ((Nat.toDigits 10 d.digits).reverse.dropWhile (· == '0')).reverse

/-- How many digits of the decimal stand before the point. -/
def Decimal.point (d : Decimal) : Int := digitCount d.digits + d.exponent

/-- Decimals are written out when their first digit stands for `10 ^ -4` to `10 ^ 15`. -/
def writtenOut (point : Int) : Bool := -4 < point && point ≤ 16

/-- An exponent has a sign and at least two digits. -/
def exponentText (e : Int) : List Char :=
  let ds := Nat.toDigits 10 e.natAbs
  'e' :: (if e < 0 then '-' else '+') :: (if ds.length < 2 then '0' :: ds else ds)

/-- The decimal as text; a written-out whole number ends in `.0`. -/
def Decimal.toText (d : Decimal) : List Char :=
  let ds := d.digitText
  let point := d.point
  if writtenOut point then
    if point ≤ 0 then '0' :: '.' :: List.replicate (-point).toNat '0' ++ ds
    else if ds.length ≤ point.toNat then
      ds ++ List.replicate (point.toNat - ds.length) '0' ++ ['.', '0']
    else ds.take point.toNat ++ '.' :: ds.drop point.toNat
  else
    match ds with
    | [] => []
    | [first] => first :: exponentText (point - 1)
    | first :: rest => first :: '.' :: rest ++ exponentText (point - 1)

/-- Zero, or the shortest text of a finite number. -/
def finiteText (negative : Bool) (mantissa : Nat) (exponent : Int) : List Char :=
  (if negative then ['-'] else []) ++
    if mantissa == 0 then ['0', '.', '0'] else (shortest mantissa exponent).toText

/-- The text of a number, with words for the values that are not finite. -/
def textWith (nanWord infinityWord : String) : Real64 → String
  | .nan => nanWord
  | .infinite negative => if negative then "-" ++ infinityWord else infinityWord
  | .finite negative mantissa exponent => String.ofList (finiteText negative mantissa exponent)

/-- The text of a number in messages. -/
def toText (x : Real64) : String := textWith "nan" "inf" x

/-- A decimal found for some count of digits reads back as the number. -/
theorem ofDecimal_of_decimalOf? {m : Nat} {e : Int} {count : Nat} {d : Decimal}
    (h : decimalOf? m e count = some d) :
    ofDecimal false d.digits d.exponent = .finite false m e := by
  simp only [decimalOf?] at h
  simpa using List.find?_some h

example : (ofDecimal false 5 (-324)).toText = "5e-324" := by decide +kernel
example : (ofDecimal false 1 16).toText = "1e+16" := by decide +kernel
example : (ofDecimal true 25 (-1)).toText = "-2.5" := by decide +kernel
example : (ofDecimal false 1 (-5)).toText = "1e-05" := by decide +kernel
example : (ofDecimal false 123456 2).toText = "12345600.0" := by decide +kernel

end FormScaffold.Real64
