import FormScaffold.Number.Shortest

/-!
# Floating numbers with a given number of places

A number may be written with so many decimal places, with so many digits after the first and an
exponent, or with so many digits in the shorter of the two. Each rounds to the nearest, and a half
to the even neighbour.

Main definitions: `RealForm` and `Real64.digitsIn`.
-/

namespace FormScaffold

/-- How a floating number with a given number of places is written. -/
inductive RealForm where
  /-- Places count from the point. -/
  | fixed
  /-- Places count from the first digit, and an exponent follows. -/
  | scientific
  /-- Places count the digits; an exponent follows when the number is very large or small. -/
  | general
  deriving DecidableEq, Repr

namespace Real64

/-- Digits around a point, which stands after whole digits only when `point` says so. -/
def pointed (point : Bool) (whole fraction : List Char) : List Char :=
  whole ++ if fraction.isEmpty && !point then [] else '.' :: fraction

/-- The digits of a positive number before and after the point, rounded to so many places. -/
def fixedDigits (places mantissa : Nat) (exponent : Int) : List Char × List Char :=
  let (num, den) := quotient mantissa exponent
  let ds := Nat.toDigits 10 (roundQuotient (num * Nat.pow 10 places) den)
  (List.replicate (places + 1 - ds.length) '0' ++ ds).splitAt
    (max ds.length (places + 1) - places)

/-- The digits of a positive number or zero, rounded to so many digits after the first, and the
power of ten of the first. -/
def leadingDigits (places mantissa : Nat) (exponent : Int) : List Char × Int :=
  if mantissa == 0 then (List.replicate (places + 1) '0', 0)
  else
    let (num, den) := quotient mantissa exponent
    let power := decimalSize num den - 1
    let s := scaled 10 num den (places - power)
    let ds := Nat.toDigits 10 (roundQuotient s.1 s.2)
    if ds.length > places + 1 then (ds.dropLast, power + 1) else (ds, power)

/-- Digits without the zeros at their end. -/
def withoutZeros (ds : List Char) : List Char := (ds.reverse.dropWhile (· == '0')).reverse

/-- The digits of a positive number or zero in a form. With `point`, a point always stands, and the
general form keeps the zeros at its end. -/
def digitsIn (form : RealForm) (point : Bool) (places mantissa : Nat) (exponent : Int) :
    List Char :=
  match form with
  | .fixed =>
    let (whole, fraction) := fixedDigits places mantissa exponent
    pointed point whole fraction
  | .scientific =>
    let (ds, power) := leadingDigits places mantissa exponent
    pointed point (ds.take 1) (ds.drop 1) ++ exponentText power
  | .general =>
    let count := max places 1
    let (ds, power) := leadingDigits (count - 1) mantissa exponent
    let kept (ds : List Char) := if point then ds else withoutZeros ds
    if -4 ≤ power && power < count then
      let (whole, fraction) := fixedDigits (count - 1 - power).toNat mantissa exponent
      pointed point whole (kept fraction)
    else pointed point (ds.take 1) (kept (ds.drop 1)) ++ exponentText power

example : digitsIn .fixed false 2 5 (-1) = ['2', '.', '5', '0'] := by decide +kernel
example : digitsIn .fixed false 0 5 (-1) = ['2'] := by decide +kernel
example : digitsIn .scientific false 0 25 0 = ['2', 'e', '+', '0', '1'] := by decide +kernel
example : digitsIn .general false 6 1 (-3) = ['0', '.', '1', '2', '5'] := by decide +kernel

end Real64

end FormScaffold
