/-!
# Numbers of 64 bits

Binary floating-point numbers as exact values: a number is a whole mantissa times a power of two,
or an infinity, or not a number. Only what the metadata needs is here: the nearest number to a
decimal or to a whole number, the order, and the whole part. All of it is exact arithmetic on
`Nat` and `Int`.

Main definitions: `Real64.ofDecimal` rounds to nearest, ties to even; `Real64.compare?` orders by
value.
-/

namespace FormScaffold

/-- A binary floating-point number of 64 bits. The value of `finite negative m e` is `m * 2 ^ e`
with the sign; numbers are built with `m < 2 ^ 53` and `-1074 ≤ e ≤ 971`. -/
inductive Real64 where
  /-- Not a number. -/
  | nan
  /-- An infinity of either sign. -/
  | infinite (negative : Bool)
  /-- A whole mantissa times a power of two. -/
  | finite (negative : Bool) (mantissa : Nat) (exponent : Int)
  deriving DecidableEq, Repr, Inhabited

namespace Real64

/-- The least exponent a number has. -/
def minExponent : Int := -1074

/-- The greatest exponent a number has. -/
def maxExponent : Int := 971

/-- Mantissas lie below this bound. -/
def mantissaBound : Nat := Nat.pow 2 53

/-- Zero with a sign. -/
def zero (negative : Bool) : Real64 := .finite negative 0 minExponent

/-- The nearest whole number to `num / den`; halves go to the even neighbour. -/
def roundQuotient (num den : Nat) : Nat :=
  let q := num / den
  let r := num % den
  if 2 * r > den || (2 * r == den && q % 2 == 1) then q + 1 else q

/-- `num / den * base ^ e` as a quotient of natural numbers. -/
def scaled (base num den : Nat) (e : Int) : Nat × Nat :=
  if e ≥ 0 then (num * Nat.pow base e.toNat, den) else (num, den * Nat.pow base (-e).toNat)

/-- The exponent with which the positive quotient has a mantissa of 53 bits, or the least one. -/
def exponentOf (num den : Nat) : Int :=
  let e := (Nat.log2 num : Int) - Nat.log2 den - 52
  let s := scaled 2 num den (-e)
  let e := if 2 * s.1 < mantissaBound * s.2 then e - 1 else e
  max e minExponent

/-- The number nearest to a positive quotient. -/
def ofQuotient (negative : Bool) (num den : Nat) : Real64 :=
  let e := exponentOf num den
  let s := scaled 2 num den (-e)
  let m := roundQuotient s.1 s.2
  let (m, e) := if m == mantissaBound then (mantissaBound / 2, e + 1) else (m, e)
  if e > maxExponent then .infinite negative else .finite negative m e

/-- How many decimal digits a number has; zero has one. -/
def digitCount (n : Nat) : Nat := (Nat.toDigits 10 n).length

/-- The number nearest to `digits * 10 ^ exponent`. Decimals that are far out of range are settled
by their size alone. -/
def ofDecimal (negative : Bool) (digits : Nat) (exponent : Int) : Real64 :=
  if digits == 0 then zero negative
  else
    let size := (digitCount digits : Int) + exponent
    if size > 400 then .infinite negative
    else if size < -400 then zero negative
    else
      let s := scaled 10 digits 1 exponent
      ofQuotient negative s.1 s.2

/-- The sign and size of a finite number in units of `2 ^ e`, for an `e` not above its exponent. -/
def units (negative : Bool) (mantissa : Nat) (exponent e : Int) : Int :=
  let n : Int := mantissa * Nat.pow 2 (exponent - e).toNat
  if negative then -n else n

/-- The order of two numbers by value; none when one of them is not a number. -/
def compare? : Real64 → Real64 → Option Ordering
  | .nan, _ => none
  | _, .nan => none
  | .infinite a, .infinite b => some (compare b.toNat a.toNat)
  | .infinite a, .finite .. => some (if a then .lt else .gt)
  | .finite .., .infinite b => some (if b then .gt else .lt)
  | .finite a m e, .finite b n f =>
    let low := min e f
    some (compare (units a m e low) (units b n f low))

/-- The order of a number and a whole number by value. -/
def compareInt? : Real64 → Int → Option Ordering
  | .nan, _ => none
  | .infinite a, _ => some (if a then .lt else .gt)
  | .finite a m e, n =>
    let low := min e 0
    some (compare (units a m e low) (n * Nat.pow 2 (-low).toNat))

/-- Whether the value is zero, with either sign. -/
def isZero : Real64 → Bool
  | .finite _ 0 _ => true
  | _ => false

/-- The whole part of a finite number, toward zero. -/
def truncate? : Real64 → Option Int
  | .finite a m e =>
    let s := scaled 2 m 1 e
    let n : Int := s.1 / s.2
    some (if a then -n else n)
  | _ => none

/-- The number nearest to a whole number. -/
def ofInt (n : Int) : Real64 :=
  if n == 0 then zero false else ofQuotient (n < 0) n.natAbs 1

example : ofDecimal false 1 (-1) = .finite false 0x1999999999999A (-56) := by decide +kernel
example : ofDecimal false 5 (-324) = .finite false 1 (-1074) := by decide +kernel
example : ofDecimal false 9007199254740993 0 = .finite false 0x10000000000000 1 := by decide +kernel
example : compare? (ofDecimal true 0 0) (zero false) = some .eq := by decide +kernel

end Real64

end FormScaffold
