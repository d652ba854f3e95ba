import FormScaffold.Yaml.Plain

/-!
# Block scalars

A block scalar is the lines below its header that are indented at least as its first line, or as
the header asks. A literal one keeps its breaks, a folded one joins lines that start with a word.
The header also asks what becomes of the breaks at the end.

Main definition: `Yaml.Cursor.block?`.
-/

namespace FormScaffold.Yaml

/-- What becomes of the breaks at the end. -/
inductive Chomp where
  /-- One is kept. -/
  | clip
  /-- All are kept. -/
  | keep
  /-- None is kept. -/
  | strip
  deriving DecidableEq, Repr

/-- The mark of a header for the breaks at the end. -/
def chomp? : Char → Option Chomp
  | '+' => some .keep
  | '-' => some .strip
  | _ => none

/-- The indentation that a header asks for. -/
def increment? (c : Char) : Option Nat :=
  if '1' ≤ c && c ≤ '9' then some (c.toNat - 48) else none

namespace Cursor

/-- What the header asks for, in either order. -/
def blockMarks (c : Cursor) : Chomp × Option Nat × Cursor :=
  match chomp? c.peek, increment? c.peek with
  | some chomp, _ =>
    match increment? c.next.peek with
    | some n => (chomp, some n, c.advance 2)
    | none => (chomp, none, c.next)
  | none, some n =>
    match chomp? c.next.peek with
    | some chomp => (chomp, some n, c.advance 2)
    | none => (.clip, some n, c.next)
  | none, none => (.clip, none, c)

/-- Behind the rest of a line that holds nothing but a comment. -/
def skipLine? (c : Cursor) : Option Cursor :=
  let c := c.skipWhile (· == ' ')
  let c := if c.peek == '#' then c.skipWhile (!isLineEnd ·) else c
  if c.rest.isEmpty then some c else c.takeBreak?.map (·.2)

/-- The breaks before the first line with text, and the greatest column of a space there. -/
def leadingBreaks : Nat → Cursor → List Char × Nat × Cursor
  | 0, c => ([], 0, c)
  | fuel + 1, c =>
    let c := c.skipWhile (· == ' ')
    match c.takeBreak? with
    | none => ([], c.column, c)
    | some (b, after) =>
      let (bs, column, c') := leadingBreaks fuel after
      (b :: bs, max c.column column, c')

/-- The breaks from here, with spaces up to an indentation around them. -/
def blockBreaks (indent : Nat) : Nat → Cursor → List Char × Cursor
  | 0, c => ([], c)
  | fuel + 1, c =>
    let c := c.skipSpacesTo indent
    match c.takeBreak? with
    | none => ([], c)
    | some (b, c) =>
      let (bs, c) := blockBreaks indent fuel c
      (b :: bs, c)

/-- Whether a line of the scalar stands here. -/
def atBlockLine (c : Cursor) (indent : Nat) : Bool := c.column == indent && !c.rest.isEmpty

/-- Whether a line starts with white space. -/
def startsBlank (c : Cursor) : Bool := c.peek == ' ' || c.peek == '\t'

/-- The lines from here: the text, the break of the last line, and the breaks after it. -/
def blockLines (folded : Bool) (indent : Nat) : Nat → Cursor →
    List Char × List Char × List Char × Cursor
  | 0, c => ([], [], [], c)
  | fuel + 1, c =>
    let (text, after) := c.takeWhile (!isLineEnd ·)
    let (lineBreak, after) := match after.takeBreak? with
      | some (b, after) => ([b], after)
      | none => ([], after)
    let (breaks, after) := blockBreaks indent (fuel + 1) after
    if after.atBlockLine indent then
      let joint :=
        if folded && lineBreak == ['\n'] && !c.startsBlank && !after.startsBlank then
          if breaks.isEmpty then [' '] else []
        else lineBreak
      let (more, last, final, c) := blockLines folded indent fuel after
      (text ++ joint ++ breaks ++ more, last, final, c)
    else (text, lineBreak, breaks, after)

/-- The scalar whose mark stands here, inside a block of an indentation. -/
def block? (c : Cursor) (outer : Int) : Option (List Char × Cursor) := do
  let fuel := c.rest.length + 1
  let folded := c.peek == '>'
  let (chomp, increment, c) := c.next.blockMarks
  if !(c.peek == ' ' || isLineEnd c.peek) then none
  else
    let c ← c.skipLine?
    let least := max 1 (outer + 1).toNat
    let (breaks, indent, c) := match increment with
      | some n =>
        let indent := least + n - 1
        let (breaks, c) := blockBreaks indent fuel c
        (breaks, indent, c)
      | none =>
        let (breaks, column, c) := leadingBreaks fuel c
        (breaks, max least column, c)
    let (text, last, final, c) :=
      if c.atBlockLine indent then
        let (text, last, final, c) := blockLines folded indent fuel c
        (breaks ++ text, last, final, c)
      else ([], [], breaks, c)
    let tail := match chomp with
      | .clip => last
      | .keep => last ++ final
      | .strip => []
    return (text ++ tail, c)

end Cursor

end FormScaffold.Yaml
