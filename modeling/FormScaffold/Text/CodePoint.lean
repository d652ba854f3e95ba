/-!
# Code points

A text is a row of code points. Formats with escapes can write one that is no character: a half of a
surrogate pair that stands alone. Since a `Char` is never a half, a half is spelled by two
characters, the mark and a private character of its own; the mark itself is spelled by the mark and
the end mark, and every other character spells itself. Different texts have different spellings, and
spellings are ordered as the code points are. A mark only ever starts a spelling, so that a text has
as many code points as it has characters beside its marks. UTF-8 has no bytes for a half: a text
with one cannot be written.

Characters with a property are listed as ranges of code points.

Main definitions: `CharSet`; `Text.spellCode`, `Text.codes`, `Text.utf8?` and `Text.ofUtf8?`.
-/

namespace FormScaffold

/-- A set of characters, as closed ranges of code points. -/
structure CharSet where
  /-- The ranges, each with its first and its last code point. -/
  ranges : List (Nat × Nat)
  deriving Repr

namespace CharSet

/-- Whether some range holds the character. -/
def has (s : CharSet) (c : Char) : Bool :=
  s.ranges.any fun r => r.1 ≤ c.toNat && c.toNat ≤ r.2

/-- The empty set has no character. -/
@[simp] theorem has_nil (c : Char) : (CharSet.mk []).has c = false := rfl

end CharSet

namespace Text

/-! ## Spelling -/

/-- Whether the code point is a half of a surrogate pair. -/
def isHalf (n : Nat) : Bool := 0xD800 ≤ n && n < 0xE000

/-- What the spelling of a half starts with: the character right behind the halves. -/
def mark : Char := '\ue000'

/-- What stands behind the mark in the spelling of the mark itself. -/
def endMark : Char := '\uf8ff'

/-- How far the private character of a half is from the half. -/
def halfShift : Nat := 0x801

/-- The spelling of a character. -/
def spellChar (c : Char) : List Char := if c == mark then [mark, endMark] else [c]

/-- The spelling of a code point. -/
def spellCode (n : Nat) : List Char :=
  if isHalf n then [mark, Char.ofNat (n + halfShift)] else spellChar (Char.ofNat n)

/-- The text that characters make. -/
def spelled (cs : List Char) : List Char := cs.flatMap spellChar

/-- The code point that the character behind a mark spells together with it. -/
def codeBehindMark (c : Char) : Nat :=
  if isHalf (c.toNat - halfShift) then c.toNat - halfShift else mark.toNat

/-- The code points of a text, each with its spelling. -/
def units : List Char → List (Nat × List Char)
  | [] => []
  | c :: cs =>
    if c == mark then
      match cs with
      | d :: rest => (codeBehindMark d, [c, d]) :: units rest
      | [] => [(mark.toNat, [c])]
    else (c.toNat, [c]) :: units cs

/-- The code points of a text. -/
def codes (cs : List Char) : List Nat := (units cs).map Prod.fst

/-- The number of code points: in every spelling one character is no mark. -/
def size (cs : List Char) : Nat := cs.countP (· != mark)

/-- The first code points of a text, so many of them. -/
def front (n : Nat) (cs : List Char) : List Char := ((units cs).take n).flatMap Prod.snd

/-! ## Bytes -/

/-- The characters that a text consists of; none when a half stands alone in it. -/
def plain? : List Char → Option (List Char)
  | [] => some []
  | c :: cs =>
    if c == mark then
      match cs with
      | d :: rest => if d == endMark then (plain? rest).map (c :: ·) else none
      | [] => none
    else (plain? cs).map (c :: ·)

/-- The bytes of a text; none when a half stands alone in it. -/
def utf8? (s : String) : Option ByteArray :=
  (plain? s.toList).map fun cs => (String.ofList cs).toUTF8

/-- The bytes that stay behind when a text is written: none when it cannot be. -/
def bytes (s : String) : ByteArray := (utf8? s).getD ByteArray.empty

/-- The text of bytes. -/
def ofUtf8? (bytes : ByteArray) : Option String :=
  (String.fromUTF8? bytes).map fun s => String.ofList (spelled s.toList)

/-- Whether no half stands alone in the text, so that it has bytes. -/
def isPaired (s : String) : Bool := (plain? s.toList).isSome

/-! ## Names of files -/

/-- Whether the half stands for a byte in the names of files. -/
def isByteHalf (n : Nat) : Bool := 0xDC80 ≤ n && n < 0xDD00

/-- Whether a text can name files: of the halves only those that stand for a byte can. -/
def isNamable (s : String) : Bool := (codes s.toList).all fun n => !isHalf n || isByteHalf n

/-- The number of bytes that the code point takes in the name of a file. -/
def codeWeight (n : Nat) : Nat := if isHalf n then 1 else (Char.ofNat n).utf8Size

/-- The number of bytes of a text in the names of files. -/
def weight (s : String) : Nat := (codes s.toList).foldr (fun n size => codeWeight n + size) 0

example : codes (spellCode 0xD800 ++ spellCode 0xE000) = [0xD800, 0xE000] := by decide

example : plain? [mark, endMark, 'a'] = some [mark, 'a'] ∧ plain? (spellCode 0xD800) = none := by
  decide

end Text

end FormScaffold
