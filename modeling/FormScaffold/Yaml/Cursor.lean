import FormScaffold.Text.CodePoint

/-!
# Places in a document

A cursor is what is left of a document, with the line and the column where it starts. Behind the
end of the document every character is the NUL, which documents do not hold.

Main definitions: `Yaml.Cursor` and its steps.
-/

namespace FormScaffold.Yaml

/-- The character behind the end of a document. -/
def endMark : Char := Char.ofNat 0

/-- Whether a character ends a line. -/
def isBreak (c : Char) : Bool :=
  c == '\r' || c == '\n' || c.toNat == 0x85 || c.toNat == 0x2028 || c.toNat == 0x2029

/-- Whether a line or the document ends here. -/
def isLineEnd (c : Char) : Bool := c == endMark || isBreak c

/-- Whether a character cannot be part of a word: a space, a tab or the end of a line. -/
def isGap (c : Char) : Bool := c == ' ' || c == '\t' || isLineEnd c

/-- What is left of a document. -/
structure Cursor where
  rest : List Char
  index : Nat
  line : Nat
  column : Nat

namespace Cursor

/-- The start of a document. -/
def start (cs : List Char) : Cursor := ⟨cs, 0, 0, 0⟩

/-- The character so many places further on. -/
def peekAt (c : Cursor) (n : Nat) : Char := c.rest[n]?.getD endMark

/-- The next character. -/
def peek (c : Cursor) : Char := c.peekAt 0

/-- The number of columns that a character takes: a byte order mark takes none, and of the two
characters that spell the mark of spellings only the second counts. -/
def columns (ch : Char) : Nat := if ch.toNat == 0xFEFF then 0 else Text.size [ch]

/-- One place further on. A carriage return before a line feed does not end the line. -/
def next (c : Cursor) : Cursor :=
  match c.rest with
  | [] => c
  | ch :: rest =>
    if isBreak ch && !(ch == '\r' && rest.head? == some '\n') then
      ⟨rest, c.index + 1, c.line + 1, 0⟩
    else ⟨rest, c.index + Text.size [ch], c.line, c.column + columns ch⟩

/-- So many places further on. -/
def advance (c : Cursor) : Nat → Cursor
  | 0 => c
  | n + 1 => c.next.advance n

/-- The characters from here that satisfy a condition, and where they end. -/
def takeWhile (c : Cursor) (p : Char → Bool) : List Char × Cursor :=
  let cs := c.rest.takeWhile p
  (cs, c.advance cs.length)

/-- Where the characters that satisfy a condition end. -/
def skipWhile (c : Cursor) (p : Char → Bool) : Cursor := (c.takeWhile p).2

/-- Behind at most so many spaces that they end at a column. -/
def skipSpacesTo (c : Cursor) (column : Nat) : Cursor :=
  c.advance (min (c.rest.takeWhile (· == ' ')).length (column - c.column))

/-- The break of a line, when one is here: most breaks count as a line feed. -/
def takeBreak? (c : Cursor) : Option (Char × Cursor) :=
  match c.rest with
  | '\r' :: '\n' :: _ => some ('\n', c.advance 2)
  | ch :: _ =>
    if !isBreak ch then none
    else if ch.toNat == 0x2028 || ch.toNat == 0x2029 then some (ch, c.next)
    else some ('\n', c.next)
  | [] => none

/-- Whether a mark of three characters stands here on its own. -/
def isSeparator (c : Cursor) : Bool :=
  (['-', '-', '-'].isPrefixOf c.rest || ['.', '.', '.'].isPrefixOf c.rest) && isGap (c.peekAt 3)

end Cursor

end FormScaffold.Yaml
