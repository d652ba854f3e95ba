import FormScaffold.Text.CodePoint

/-!
# Percent encoding

Text inside a web address is written as its UTF-8 bytes; bytes other than letters, digits and a few
marks are written as a percent sign and two hexadecimal digits.
-/

namespace FormScaffold.Percent

/-- A hexadecimal digit in capitals. -/
def digit (n : Nat) : Char := if n < 10 then Char.ofNat (48 + n) else Char.ofNat (55 + n)

/-- Whether a byte stands for itself; slashes separate the parts of a path. -/
def isPlain (n : Nat) : Bool :=
  let c := Char.ofNat n
  n < 128 && (c.isAlphanum || c == '_' || c == '.' || c == '-' || c == '~' || c == '/')

/-- A byte in an address. -/
def encodeByte (b : UInt8) : List Char :=
  let n := b.toNat
  if isPlain n then [Char.ofNat n] else ['%', digit (n / 16), digit (n % 16)]

/-- A text in an address; a text without bytes has no place there. -/
def encode? (s : String) : Option String :=
  (Text.utf8? s).map fun bytes => String.ofList (bytes.toList.flatMap encodeByte)

/-- The path without its parts `.` and with each part `..` taken back together with the part
before it. -/
def dropDots (path : String) : String :=
  let parts := path.toList.splitOn '/'
  let kept := parts.foldl (fun (out : List (List Char)) part =>
    if part == ['.'] then out
    else if part == ['.', '.'] then (if out.isEmpty || out == [[]] then out else out.dropLast)
    else out ++ [part]) []
  String.ofList (['/'].intercalate kept)

end FormScaffold.Percent
