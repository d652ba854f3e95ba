import FormScaffold.Yaml.Quoted

/-!
# Plain scalars

A plain scalar has no quotes. It ends before a comment, before a colon with a gap behind it, inside
brackets also before the marks of a collection, and outside brackets where a line is not indented
enough.

Main definition: `Yaml.Cursor.plain`.
-/

namespace FormScaffold.Yaml

/-- The marks that end a plain scalar inside brackets. -/
def flowMarks : List Char := [',', '?', '[', ']', '{', '}']

/-- How many characters of a plain scalar stand here without white space between them. -/
def plainLength (inFlow : Bool) : List Char → Nat
  | [] => 0
  | c :: rest =>
    let after := rest.head?.getD endMark
    if isGap c then 0
    else if c == ':' && (isGap after || (inFlow && [',', '[', ']', '{', '}'].contains after)) then 0
    else if inFlow && flowMarks.contains c then 0
    else plainLength inFlow rest + 1

namespace Cursor

/-- The breaks from here, with the spaces around them; none if a separator of documents comes. -/
def plainBreaks : Nat → Cursor → Option (List Char) × Cursor
  | 0, c => (some [], c)
  | fuel + 1, c =>
    if c.isSeparator then (none, c)
    else
      let c := c.skipWhile (· == ' ')
      match c.takeBreak? with
      | none => (some [], c)
      | some (b, c) =>
        let (bs, c) := plainBreaks fuel c
        (bs.map (b :: ·), c)

/-- The white space from here, folded where it has breaks, and whether it had any; none where
the scalar ends. -/
def plainSpaces (fuel : Nat) (c : Cursor) : Option (List Char) × Cursor × Bool :=
  let (blanks, c) := c.takeWhile (· == ' ')
  match c.takeBreak? with
  | some (b, c) =>
    let (bs, c) := plainBreaks fuel c
    (bs.map (foldBreaks b), c, true)
  | none => (if blanks.isEmpty then none else some blanks, c, false)

/-- The text of a plain scalar from here, with white space that stands before it; and whether the
last white space had a line break. -/
def plainText (inFlow : Bool) (indent : Int) : Nat → List Char → Bool → Cursor →
    List Char × Cursor × Bool
  | 0, _, broken, c => ([], c, broken)
  | fuel + 1, before, broken, c =>
    let size := if c.peek == '#' then 0 else plainLength inFlow c.rest
    if size == 0 then ([], c, broken)
    else
      let piece := before ++ c.rest.take size
      match (c.advance size).plainSpaces fuel with
      | (none, c, broken) => (piece, c, broken)
      | (some spaces, c, broken) =>
        if c.peek == '#' || (!inFlow && c.column < indent) then (piece, c, broken)
        else
          let (more, c, broken) := plainText inFlow indent fuel spaces broken c
          (piece ++ more, c, broken)

/-- The plain scalar that starts here, where it ends, and whether a line break comes right before
the end. -/
def plain (c : Cursor) (inFlow : Bool) (indent : Int) : List Char × Cursor × Bool :=
  plainText inFlow indent (c.rest.length + 1) [] false c

end Cursor

end FormScaffold.Yaml
