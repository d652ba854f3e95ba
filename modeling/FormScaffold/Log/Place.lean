import FormScaffold.Number.Places
import FormScaffold.Value.Display

/-!
# Places in a text

A place in a text stands for a value. Its letter says how the value is written, and its layout how
that is padded to a width.

Main definitions: `FillError`, `Layout` and `Layout.written`.
-/

namespace FormScaffold.Log

/-- Why the places of a text cannot be filled. -/
inductive FillError where
  /-- There are fewer values than places. -/
  | tooFew
  /-- There are more values than places. -/
  | tooMany
  /-- A value cannot be written as its letter asks. -/
  | wrongKind
  /-- A value is too large to be written as its letter asks. -/
  | tooLarge
  /-- A value that is not a number has no whole part. -/
  | undefinedNumber
  /-- A place asks for a name and the values have none. -/
  | noNames
  /-- No value has the name. -/
  | unknownName
  /-- The text ends inside a place. -/
  | incomplete
  /-- The text ends inside the name of a place. -/
  | incompleteName
  /-- The text asks for more width than there is. -/
  | tooWide
  /-- The text asks for more precision than there is. -/
  | tooPrecise
  /-- The letter, at a position of the text, has no meaning. -/
  | unknownLetter (code position : Nat)
  deriving DecidableEq, Repr

/-- The error in words, where it is worded. -/
def FillError.message? : FillError → Option String
  | .incomplete => some "incomplete format"
  | .incompleteName => some "incomplete format key"
  | .undefinedNumber => some "cannot convert float NaN to integer"
  | .tooWide => some "width too big"
  | .tooPrecise => some "precision too big"
  | .unknownLetter code position =>
    let shown := if 31 < code && code < 128 then Char.ofNat code else '?'
    some ("unsupported format character '" ++ String.ofList [shown] ++ "' (0x" ++
      String.ofList (Nat.toDigits 16 code) ++ ") at index " ++ toString position)
  | _ => none

/-- How a place is padded. -/
structure Layout where
  left : Bool := false
  zero : Bool := false
  /-- What stands before a number that is not negative. -/
  sign : List Char := []
  /-- Whether numbers show their base, and floating numbers a point. -/
  marked : Bool := false
  width : Nat := 0
  precision : Option Nat := none
  deriving DecidableEq, Repr

namespace Layout

/-- Characters padded to the width, without regard to signs. -/
def pad (l : Layout) (cs : List Char) : List Char :=
  let blanks := List.replicate (l.width - Text.size cs) ' '
  if l.left then cs ++ blanks else blanks ++ cs

/-- A number padded to the width: its sign and base stand before zeros that pad it. -/
def padNumber (l : Layout) (negative : Bool) (base digits : List Char) : List Char :=
  let front := (if negative then ['-'] else l.sign) ++ base
  if l.zero && !l.left then
    front ++ List.replicate (l.width - front.length - digits.length) '0' ++ digits
  else l.pad (front ++ digits)

/-- A whole number to a base, with at least as many digits as the precision. -/
def wholeText (l : Layout) (base : Nat) (mark : List Char) (n : Int) : List Char :=
  let ds := Nat.toDigits base n.natAbs
  l.padNumber (n < 0) (if l.marked then mark else [])
    (List.replicate (l.precision.getD 0 - ds.length) '0' ++ ds)

/-- A floating number in a form. -/
def realText (l : Layout) (form : RealForm) : Real64 → List Char
  | .nan => l.padNumber false [] ['n', 'a', 'n']
  | .infinite negative => l.padNumber negative [] ['i', 'n', 'f']
  | .finite negative mantissa exponent =>
    l.padNumber negative [] (Real64.digitsIn form l.marked (l.precision.getD 6) mantissa exponent)

/-- A text padded to the width, and cut to the precision. -/
def cutText (l : Layout) (cs : List Char) : List Char :=
  l.pad (match l.precision with
    | some n => Text.front n cs
    | none => cs)

end Layout

/-- The whole part of a number. -/
def wholePart? : Value → Except FillError Int
  | .int n => .ok n
  | .bool b => .ok b.toNat
  | .real .nan => .error .undefinedNumber
  | .real x => (x.truncate?.map .ok).getD (.error .tooLarge)
  | _ => .error .wrongKind

/-- A whole number. -/
def whole? : Value → Except FillError Int
  | .int n => .ok n
  | .bool b => .ok b.toNat
  | _ => .error .wrongKind

/-- A floating number. -/
def real? : Value → Except FillError Real64
  | .real x => .ok x
  | v => do
    match Real64.ofInt (← whole? v) with
    | .infinite _ => .error .tooLarge
    | x => return x

/-- A single code point, or that of a number. -/
def character? : Value → Except FillError (List Char)
  | .text s =>
    match Text.units s.toList with
    | [u] => .ok u.2
    | _ => .error .wrongKind
  | v => do
    let n ← whole? v
    if 0 ≤ n && n < 0x110000 then return Text.spellCode n.toNat else .error .tooLarge

/-- A character, or its number when it is not ASCII. -/
def asciiOnly (c : Char) : List Char := if c.toNat < 128 then [c] else Text.numberEscape c.toNat

/-- A value as the letter of a place asks. -/
def Layout.written (l : Layout) (unknown : FillError) (v : Value) :
    Char → Except FillError (List Char)
  | 's' => .ok (l.cutText v.display.toList)
  | 'r' => .ok (l.cutText v.quoted.toList)
  | 'a' => .ok (l.cutText (v.quoted.toList.flatMap asciiOnly))
  | 'c' => do return l.pad (← character? v)
  | 'd' => do return l.wholeText 10 [] (← wholePart? v)
  | 'i' => do return l.wholeText 10 [] (← wholePart? v)
  | 'u' => do return l.wholeText 10 [] (← wholePart? v)
  | 'o' => do return l.wholeText 8 ['0', 'o'] (← whole? v)
  | 'x' => do return l.wholeText 16 ['0', 'x'] (← whole? v)
  | 'X' => do return (l.wholeText 16 ['0', 'x'] (← whole? v)).map Char.toUpper
  | 'f' => do return l.realText .fixed (← real? v)
  | 'F' => do return (l.realText .fixed (← real? v)).map Char.toUpper
  | 'e' => do return l.realText .scientific (← real? v)
  | 'E' => do return (l.realText .scientific (← real? v)).map Char.toUpper
  | 'g' => do return l.realText .general (← real? v)
  | 'G' => do return (l.realText .general (← real? v)).map Char.toUpper
  | _ => .error unknown

end FormScaffold.Log
