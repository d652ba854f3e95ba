import FormScaffold.Number.Shortest
import FormScaffold.Text.Quoted
import FormScaffold.Value.Basic

/-!
# Writing JSON

Values are written on one line, with a space after each comma and colon, or as an indented block
with one item a line. A style also says which characters of a text are escaped beside quotes,
backslashes and controls.

Main definitions: `Json.Style` and `Json.write`; `Json.literal` and `Json.block` are the two styles
that generated code uses.
-/

namespace FormScaffold.Json

/-- Which characters of a text are escaped although the format would not ask for it. -/
inductive Escaping where
  /-- None. -/
  | plain
  /-- The separators at which some readers break lines: U+0085, U+2028 and U+2029. -/
  | lineSafe
  deriving DecidableEq, Repr

/-- The escape `\u` with four digits. -/
def unicodeEscape (n : Nat) : List Char := '\\' :: 'u' :: Text.hexDigits 4 n

/-- Whether the style asks for an escape of the character. -/
def Escaping.covers : Escaping → Char → Bool
  | .plain, _ => false
  | .lineSafe, c => c.toNat == 0x85 || c.toNat == 0x2028 || c.toNat == 0x2029

/-- A character inside a text literal. -/
def escapeChar (escaping : Escaping) (c : Char) : List Char :=
  if c == '"' then ['\\', '"']
  else if c == '\\' then ['\\', '\\']
  else if c == '\n' then ['\\', 'n']
  else if c == '\r' then ['\\', 'r']
  else if c == '\t' then ['\\', 't']
  else if c.toNat == 0xC then ['\\', 'f']
  else if c.toNat == 0x8 then ['\\', 'b']
  else if c.toNat < 0x20 || escaping.covers c then unicodeEscape c.toNat
  else [c]

/-- A text literal. -/
def textLiteral (escaping : Escaping) (s : String) : List Char :=
  '"' :: s.toList.flatMap (escapeChar escaping) ++ ['"']

/-- A whole number, with all of its digits. A printer that refuses to write more than 4300 digits,
as `Number.readInt?` refuses to read them, writes the same for all others. -/
def intLiteral (n : Int) : List Char :=
  (if n < 0 then ['-'] else []) ++ Nat.toDigits 10 n.natAbs

/-- A floating number; the values that are not finite have words. -/
def realLiteral (x : Real64) : List Char := (x.textWith "NaN" "Infinity").toList

/-- How a value is laid out. -/
structure Style where
  escaping : Escaping
  /-- Whether every item stands on a line of its own, indented by two spaces a level. -/
  indented : Bool
  deriving DecidableEq, Repr

/-- The start of a line at a level. -/
def lineStart (level : Nat) : List Char := '\n' :: List.replicate (2 * level) ' '

/-- What stands after an opening bracket, before the first item at the level. -/
def Style.opening (style : Style) (level : Nat) : List Char :=
  if style.indented then lineStart level else []

/-- What stands between two items at the level. -/
def Style.between (style : Style) (level : Nat) : List Char :=
  if style.indented then ',' :: lineStart level else [',', ' ']

/-- What stands before a closing bracket at the level. -/
def Style.closing (style : Style) (level : Nat) : List Char :=
  if style.indented then lineStart level else []

mutual

/-- The text of a value whose first character stands at the level. -/
def write (style : Style) (level : Nat) : Value → List Char
  | .null => "null".toList
  | .bool b => if b then "true".toList else "false".toList
  | .int n => intLiteral n
  | .real x => realLiteral x
  | .text s => textLiteral style.escaping s
  | .list items => '[' :: writeItems style level true items ++ [']']
  | .record entries => '\x7b' :: writeEntries style level true entries ++ ['\x7d']

/-- The items of a list with what stands before, between and after them. -/
def writeItems (style : Style) (level : Nat) (isFirst : Bool) : List Value → List Char
  | [] => if isFirst then [] else style.closing level
  | v :: vs =>
    (if isFirst then style.opening (level + 1) else style.between (level + 1)) ++
      write style (level + 1) v ++ writeItems style level false vs

/-- The entries of a record with what stands before, between and after them. -/
def writeEntries (style : Style) (level : Nat) (isFirst : Bool) :
    List (String × Value) → List Char
  | [] => if isFirst then [] else style.closing level
  | (k, v) :: es =>
    (if isFirst then style.opening (level + 1) else style.between (level + 1)) ++
      textLiteral style.escaping k ++ ':' :: ' ' :: write style (level + 1) v ++
      writeEntries style level false es

end

/-- A value on one line. -/
def inline (escaping : Escaping) (v : Value) : String :=
  String.ofList (write ⟨escaping, false⟩ 0 v)

/-- A value as an indented block. -/
def indented (escaping : Escaping) (v : Value) : String :=
  String.ofList (write ⟨escaping, true⟩ 0 v)

/-- A literal in generated code, on one line whatever reads the code. -/
def literal (v : Value) : String := inline .lineSafe v

/-- A literal in generated code as an indented block, broken by line feeds alone. -/
def block (v : Value) : String := indented .lineSafe v

/-- A code point in ASCII: by itself, or by one escape, or by two when it lies beyond the first
65536. -/
def asciiCode (n : Nat) : List Char :=
  if n < 0x7F then [Char.ofNat n]
  else if n < 0x10000 then unicodeEscape n
  else
    let k := n - 0x10000
    unicodeEscape (0xD800 + k / 0x400) ++ unicodeEscape (0xDC00 + k % 0x400)

/-- A value on one line of ASCII; only in texts are there other characters to escape. -/
def ascii (v : Value) : String :=
  String.ofList ((Text.codes (inline .plain v).toList).flatMap asciiCode)

/-- The text of a value used as a record's key. -/
def keyText : Value → String
  | .text s => s
  | v => inline .plain v

/-- A text is its own key. -/
@[simp] theorem keyText_text (s : String) : keyText (.text s) = s := rfl

example : literal (.record [("a", .list [.int (-1), .null]), ("b", .text "\"\n")]) =
    "\x7b\"a\": [-1, null], \"b\": \"\\\"\\n\"\x7d" := by decide +kernel

end FormScaffold.Json
