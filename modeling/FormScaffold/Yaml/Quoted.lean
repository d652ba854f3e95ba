import FormScaffold.Number.Reading
import FormScaffold.Yaml.Cursor

/-!
# Scalars in quotes

A line break inside a quoted scalar is folded: one break is a space, of several the first is
dropped. Single quotes are doubled to stand for themselves; in double quotes a backslash starts an
escape.

Main definition: `Yaml.Cursor.quoted?`.
-/

namespace FormScaffold.Yaml

/-- What a letter behind a backslash stands for. -/
def escapes : List (Char × Nat) :=
  [('0', 0), ('a', 7), ('b', 8), ('t', 9), ('\t', 9), ('n', 10), ('v', 11), ('f', 12), ('r', 13),
    ('e', 0x1B), (' ', 0x20), ('"', 0x22), ('\\', 0x5C), ('/', 0x2F), ('N', 0x85), ('_', 0xA0),
    ('L', 0x2028), ('P', 0x2029)]

/-- The number of hexadecimal digits behind a letter. -/
def codeSizes : List (Char × Nat) := [('x', 2), ('u', 4), ('U', 8)]

/-- The value of a hexadecimal digit. -/
def hexValue? (c : Char) : Option Nat :=
  if '0' ≤ c && c ≤ '9' then some (c.toNat - 48)
  else if 'a' ≤ c && c ≤ 'f' then some (c.toNat - 87)
  else if 'A' ≤ c && c ≤ 'F' then some (c.toNat - 55)
  else none

/-- The number that hexadecimal digits write. -/
def hexNumber? (cs : List Char) : Option Nat :=
  cs.foldlM (fun n c => (hexValue? c).map (n * 16 + ·)) 0

/-- A line break with the breaks and the white space behind it, folded. -/
def foldBreaks (first : Char) (more : List Char) : List Char :=
  (if first != '\n' then [first] else if more.isEmpty then [' '] else []) ++ more

namespace Cursor

/-- The breaks from here with the white space around them; a separator of documents must not stand
there. -/
def quotedBreaks? : Nat → Cursor → Option (List Char × Cursor)
  | 0, _ => none
  | fuel + 1, c =>
    if c.isSeparator then none
    else
      let c := c.skipWhile fun ch => ch == ' ' || ch == '\t'
      match c.takeBreak? with
      | none => some ([], c)
      | some (b, c) => do
        let (bs, c) ← quotedBreaks? fuel c
        return (b :: bs, c)

/-- The white space from here, folded where it has breaks. -/
def quotedSpaces? (fuel : Nat) (c : Cursor) : Option (List Char × Cursor) := do
  let (blanks, c) := c.takeWhile fun ch => ch == ' ' || ch == '\t'
  match c.takeBreak? with
  | some (b, c) =>
    let (bs, c) ← quotedBreaks? fuel c
    return (foldBreaks b bs, c)
  | none => if c.rest.isEmpty then none else return (blanks, c)

/-- The escape behind a backslash. -/
def escape? (fuel : Nat) (c : Cursor) : Option (List Char × Cursor) := do
  let ch := c.peek
  match escapes.lookup ch, codeSizes.lookup ch with
  | some code, _ => return (Text.spellCode code, c.next)
  | none, some size =>
    let digits := c.next.rest.take size
    if digits.length < size then none
    else
      let code ← hexNumber? digits
      if code > 0x10FFFF then none else return (Text.spellCode code, c.next.advance size)
  | none, none =>
    let (_, c) ← c.takeBreak?
    quotedBreaks? fuel c

/-- The text from here up to the closing quote. -/
def quotedText? (double : Bool) : Nat → Cursor → Option (List Char × Cursor)
  | 0, _ => none
  | fuel + 1, c => do
    let ch := c.peek
    if ch == (if double then '"' else '\'') then
      if !double && c.peekAt 1 == '\'' then
        let (cs, c) ← quotedText? double fuel (c.advance 2)
        return ('\'' :: cs, c)
      else return ([], c.next)
    else
      let (piece, c) ←
        if double && ch == '\\' then escape? fuel c.next
        else if isGap ch then quotedSpaces? fuel c
        else some ([ch], c.next)
      let (cs, c) ← quotedText? double fuel c
      return (piece ++ cs, c)

/-- The scalar whose opening quote stands here. -/
def quoted? (c : Cursor) : Option (List Char × Cursor) :=
  c.next.quotedText? (c.peek == '"') (c.rest.length + 1)

end Cursor

end FormScaffold.Yaml
