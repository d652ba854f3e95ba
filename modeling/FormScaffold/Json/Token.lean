import FormScaffold.Number.Real64
import FormScaffold.Text.Digit

/-!
# Tokens of JSON

A JSON text is a row of brackets, commas, colons and scalars with blanks between them. The scanner
takes one token at a time; each takes at least one character, so scanning ends.

Main definitions: `Json.Token` and `Json.Token.scan`.
-/

namespace FormScaffold.Json

/-- A scalar or a mark of a JSON text. -/
inductive Token where
  | null
  | bool (b : Bool)
  | int (n : Int)
  | real (x : Real64)
  | text (s : String)
  | openList
  | closeList
  | openRecord
  | closeRecord
  | comma
  | colon
  deriving DecidableEq, Repr

/-- The blanks between tokens. -/
def isSpace (c : Char) : Bool := c == ' ' || c == '\t' || c == '\n' || c == '\r'

/-- The value of a hexadecimal digit. -/
def hexValue? (c : Char) : Option Nat :=
  if '0' ≤ c && c ≤ '9' then some (c.toNat - 48)
  else if 'a' ≤ c && c ≤ 'f' then some (c.toNat - 87)
  else if 'A' ≤ c && c ≤ 'F' then some (c.toNat - 55)
  else none

/-- The value of four hexadecimal digits. -/
def hex4? (a b c d : Char) : Option Nat := do
  let a ← hexValue? a
  let b ← hexValue? b
  let c ← hexValue? c
  let d ← hexValue? d
  return ((a * 16 + b) * 16 + c) * 16 + d

/-- The character after a backslash, for the escapes of one letter. -/
def unescape? (c : Char) : Option Char :=
  if c == '"' || c == '\\' || c == '/' then some c
  else if c == 'b' then some (Char.ofNat 8)
  else if c == 'f' then some (Char.ofNat 12)
  else if c == 'n' then some '\n'
  else if c == 'r' then some '\r'
  else if c == 't' then some '\t'
  else none

/-- Whether the number is the first half of a pair. -/
def isHigh (n : Nat) : Bool := 0xD800 ≤ n && n < 0xDC00

/-- Whether the number is the second half of a pair. -/
def isLow (n : Nat) : Bool := 0xDC00 ≤ n && n < 0xE000

/-- The characters of a text literal, read after its opening quote, and what follows its closing
quote. `pending` is the first half of a pair whose second half may follow; a half that stays alone
is a code point of its own. -/
def takeText (pending : Option Nat) : List Char → Option (List Char × List Char)
  | [] => none
  | '"' :: rest => some (flush, rest)
  | '\\' :: 'u' :: a :: b :: c :: d :: rest =>
    match hex4? a b c d with
    | none => none
    | some n =>
      match pending with
      | some high =>
        if isLow n then
          add [Char.ofNat (0x10000 + (high - 0xD800) * 0x400 + (n - 0xDC00))] (takeText none rest)
        else if isHigh n then add flush (takeText (some n) rest)
        else add (flush ++ Text.spellCode n) (takeText none rest)
      | none =>
        if isHigh n then takeText (some n) rest else add (Text.spellCode n) (takeText none rest)
  | '\\' :: e :: rest =>
    match unescape? e with
    | none => none
    | some c => add (flush ++ [c]) (takeText none rest)
  | c :: rest =>
    if c == '\\' || c.toNat < 0x20 then none else add (flush ++ [c]) (takeText none rest)
where
  /-- A half without its partner. -/
  flush : List Char := (pending.map Text.spellCode).getD []
  /-- Characters in front of those that were read. -/
  add (front : List Char) (read : Option (List Char × List Char)) :
      Option (List Char × List Char) :=
    read.map fun r => (front ++ r.1, r.2)

/-- The digits 0 to 9. -/
def isAsciiDigit (c : Char) : Bool := '0' ≤ c && c ≤ '9'

/-- The whole part of a number: zero, or digits that do not start with zero. -/
def takeWhole : List Char → List Char × List Char
  | '0' :: rest => (['0'], rest)
  | cs => cs.span isAsciiDigit

/-- A point and the digits after it, when there are digits. -/
def takePoint : List Char → List Char × List Char
  | '.' :: c :: rest =>
    if isAsciiDigit c then (c :: rest).span isAsciiDigit else ([], '.' :: c :: rest)
  | cs => ([], cs)

/-- The digits of an exponent and whether it is negative, after its letter. -/
def takePower : List Char → Option (Bool × List Char × List Char)
  | '-' :: c :: rest => if isAsciiDigit c then some (true, (c :: rest).span isAsciiDigit) else none
  | '+' :: c :: rest => if isAsciiDigit c then some (false, (c :: rest).span isAsciiDigit) else none
  | c :: rest => if isAsciiDigit c then some (false, (c :: rest).span isAsciiDigit) else none
  | [] => none

/-- An exponent: its value, when there is one, and what follows. -/
def takeExponent : List Char → Option Int × List Char
  | c :: rest =>
    if c == 'e' || c == 'E' then
      match takePower rest with
      | some (negative, ds, left) =>
        let n : Int := Text.digitsValue ds
        (some (if negative then -n else n), left)
      | none => (none, c :: rest)
    else (none, c :: rest)
  | [] => (none, [])

/-- An unsigned number: whole without point and exponent, else floating. -/
def takeNumber (negative : Bool) (cs : List Char) : Option (Token × List Char) :=
  match takeWhole cs with
  | ([], _) => none
  | (whole, afterWhole) =>
    let (fraction, afterPoint) := takePoint afterWhole
    let (power, rest) := takeExponent afterPoint
    if fraction.isEmpty && power.isNone then
      let n : Int := Text.digitsValue whole
      some (.int (if negative then -n else n), rest)
    else
      some (.real (Real64.ofDecimal negative (Text.digitsValue (whole ++ fraction))
        (power.getD 0 - fraction.length)), rest)

/-- The marks and words that are always the same. -/
def fixed : List (List Char × Token) :=
  [(['['], .openList), ([']'], .closeList), (['\x7b'], .openRecord), (['\x7d'], .closeRecord),
    ([','], .comma), ([':'], .colon), ("null".toList, .null), ("true".toList, .bool true),
    ("false".toList, .bool false), ("NaN".toList, .real .nan),
    ("Infinity".toList, .real (.infinite false)), ("-Infinity".toList, .real (.infinite true))]

/-- The token at the start of the text, which starts with no blank, and what follows it. -/
def take (cs : List Char) : Option (Token × List Char) :=
  match fixed.find? fun f => f.1.isPrefixOf cs with
  | some (word, t) => some (t, cs.drop word.length)
  | none =>
    match cs with
    | '"' :: rest => (takeText none rest).map fun r => (.text (String.ofList r.1), r.2)
    | '-' :: rest => takeNumber true rest
    | cs => takeNumber false cs

/-- The tokens of a text; none when some part of it is no token. -/
def Token.scan (cs : List Char) : Option (List Token) :=
  match cs with
  | [] => some []
  | c :: rest =>
    if isSpace c then Token.scan rest
    else
      match take (c :: rest) with
      | none => none
      | some (t, left) =>
        if left.length ≤ rest.length then (Token.scan left).map (t :: ·) else none
  termination_by cs.length

end FormScaffold.Json
