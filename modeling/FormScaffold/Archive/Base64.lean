/-!
# Base 64

Three bytes are written as four characters; what is missing to a group of three is marked at the
end. Only texts that are written this way can be read, save that marks behind a full group do not
count.

Main definitions: `Base64.encode` and `Base64.decode?`.
-/

namespace FormScaffold.Base64

/-- The character of a number below sixty-four. -/
def digit (n : Nat) : Char :=
  if n < 26 then Char.ofNat (65 + n)
  else if n < 52 then Char.ofNat (71 + n)
  else if n < 62 then Char.ofNat (n - 4)
  else if n == 62 then '+'
  else '/'

/-- The number of a character. -/
def value? (c : Char) : Option Nat :=
  if 'A' ≤ c && c ≤ 'Z' then some (c.toNat - 65)
  else if 'a' ≤ c && c ≤ 'z' then some (c.toNat - 71)
  else if '0' ≤ c && c ≤ '9' then some (c.toNat + 4)
  else if c == '+' then some 62
  else if c == '/' then some 63
  else none

/-- The characters of a group of bytes; the group is a number of so many digits. -/
def group (n count : Nat) : List Char :=
  ([n / 262144, n / 4096 % 64, n / 64 % 64, n % 64].map digit).take count

/-- The text of bytes. -/
def encode : List UInt8 → List Char
  | [] => []
  | [a] => group (a.toNat * 65536) 2 ++ ['=', '=']
  | [a, b] => group (a.toNat * 65536 + b.toNat * 256) 3 ++ ['=']
  | a :: b :: c :: rest => group (a.toNat * 65536 + b.toNat * 256 + c.toNat) 4 ++ encode rest

/-- Whether nothing but marks is left. -/
def isPadding (cs : List Char) : Bool := cs.all (· == '=')

/-- The bytes of a text. -/
def decode? : List Char → Option (List UInt8)
  | [] => some []
  | [a, b, '=', '='] => do
    let n := (← value? a) * 64 + (← value? b)
    return [(n / 16).toUInt8]
  | [a, b, c, '='] => do
    let n := (← value? a) * 4096 + (← value? b) * 64 + (← value? c)
    return [(n / 1024).toUInt8, (n / 4 % 256).toUInt8]
  | a :: b :: c :: d :: rest => do
    let n := (← value? a) * 262144 + (← value? b) * 4096 + (← value? c) * 64 + (← value? d)
    let more ← if isPadding rest then some [] else decode? rest
    return (n / 65536).toUInt8 :: (n / 256 % 256).toUInt8 :: (n % 256).toUInt8 :: more
  | _ => none

example : encode "abcd".toUTF8.toList = "YWJjZA==".toList := by decide +kernel

example : decode? "YWJjZA==".toList = some "abcd".toUTF8.toList := by decide +kernel

end FormScaffold.Base64
