import FormScaffold.Log.Place

/-!
# Filling the places of a text

A percent sign in a text marks a place that a value fills; two of them stand for one. A place may
name its value in parentheses, then come flags, a width, a precision after a point, and the letter.
A star for a width or a precision takes it from the values. Places without a name take the values in
order, and every value has to be taken.

Main definitions: `Filling` and `fill`.
-/

namespace FormScaffold.Log

/-- A text that is being filled: what follows, the values that are left, and those that have
names. -/
structure Filling where
  rest : List Char
  values : List Value
  names : Option Entries

/-- A step of filling a text. -/
abbrev Fill := StateT Filling (Except FillError)

namespace Fill

/-- What follows in the text. -/
def rest : Fill (List Char) := return (← get).rest

/-- Goes on in the text. -/
def goOn (cs : List Char) : Fill Unit := modify fun f => { f with rest := cs }

/-- Takes the next value. -/
def value : Fill Value := do
  match (← get).values with
  | v :: vs =>
    modify fun f => { f with values := vs }
    return v
  | [] => throw .tooFew

/-- A name up to the parenthesis that closes it, and what follows; `depth` parentheses are open
inside it. -/
def takeName? (depth : Nat) : List Char → Option (List Char × List Char)
  | [] => none
  | c :: cs =>
    if c == ')' && depth == 0 then some ([], cs)
    else
      let depth := if c == '(' then depth + 1 else if c == ')' then depth - 1 else depth
      (takeName? depth cs).map fun r => (c :: r.1, r.2)

/-- The value that a place names becomes the only one for the place. -/
def name : Fill Unit := do
  match ← rest with
  | '(' :: cs =>
    match (← get).names, takeName? 0 cs with
    | none, _ => throw .noNames
    | some _, none => throw .incompleteName
    | some es, some (name, cs) =>
      match es.get? (String.ofList name) with
      | some v => modify fun f => { f with rest := cs, values := [v] }
      | none => throw .unknownName
  | _ => return

/-- The flags at the start of a text. -/
def takeFlags (l : Layout) : List Char → Layout × List Char
  | '-' :: cs => takeFlags { l with left := true } cs
  | '0' :: cs => takeFlags { l with zero := true } cs
  | '+' :: cs => takeFlags { l with sign := ['+'] } cs
  | ' ' :: cs => takeFlags { l with sign := if l.sign.isEmpty then [' '] else l.sign } cs
  | '#' :: cs => takeFlags { l with marked := true } cs
  | cs => (l, cs)

/-- The flags of a place. -/
def flags : Fill Layout := do
  let (l, cs) := takeFlags {} (← rest)
  goOn cs
  return l

/-- A whole number that is written here, or taken from the values for a star; neither may reach the
bound. -/
def count (bound : Nat) (tooBig : FillError) : Fill (Option Int) := do
  match ← rest with
  | '*' :: cs =>
    match ← value with
    | .int n =>
      if n.natAbs < bound then
        goOn cs
        return some n
      else throw .tooLarge
    | .bool b =>
      goOn cs
      return some b.toNat
    | _ => throw .wrongKind
  | cs =>
    let (ds, cs) := cs.span Char.isDigit
    goOn cs
    let n := ds.foldl (fun n d => n * 10 + (d.toNat - 48)) 0
    if n < bound then return if ds.isEmpty then none else some n else throw tooBig

/-- The width of a place; a negative one pads on the right. -/
def width (l : Layout) : Fill Layout := do
  match ← count 0x8000000000000000 .tooWide with
  | some n => return { l with width := n.natAbs, left := l.left || n < 0 }
  | none => return l

/-- The precision of a place; without a number it is zero. -/
def precision (l : Layout) : Fill Layout := do
  match ← rest with
  | '.' :: cs =>
    goOn cs
    return { l with precision := some ((← count 0x80000000 .tooPrecise).getD 0).toNat }
  | _ => return l

/-- A letter for the size of numbers, which changes nothing. -/
def size : Fill Unit := do
  match ← rest with
  | c :: cs => if c == 'h' || c == 'l' || c == 'L' then goOn cs
  | [] => return

/-- The letter of a place and its value; the text had `length` code points. -/
def place (length : Nat) : Fill (List Char) := do
  name
  let l ← precision (← width (← flags))
  size
  match ← rest with
  | [] => throw .incomplete
  | letter :: cs =>
    let (code, spelling) := (Text.units (letter :: cs)).headD (letter.toNat, [letter])
    let cs := cs.drop (spelling.length - 1)
    goOn cs
    l.written (.unknownLetter code (length - Text.size cs - 1)) (← value) letter

/-- The text from here with its places filled; the text had `length` code points. -/
def text (length : Nat) : Nat → Fill (List Char)
  | 0 => return []
  | fuel + 1 => do
    match ← rest with
    | [] =>
      let f ← get
      if f.names.isNone && !f.values.isEmpty then throw .tooMany else return []
    | '%' :: '%' :: cs =>
      goOn cs
      return '%' :: (← text length fuel)
    | '%' :: cs =>
      goOn cs
      let piece ← place length
      return piece ++ (← text length fuel)
    | c :: cs =>
      goOn cs
      return c :: (← text length fuel)

end Fill

/-- A text with its places filled by values; a single record that is not empty also gives its
entries by name. -/
def fill (text : String) (values : List Value) : Except FillError String := do
  let cs := text.toList
  let names := match values with
    | [.record (e :: es)] => some (e :: es)
    | _ => none
  let (filled, _) ← (Fill.text (Text.size cs) (cs.length + 1)).run ⟨cs, values, names⟩
  return String.ofList filled

example : (fill "%s: 100%%, %03d" [.text "a", .int (-7)]).toOption = some "a: 100%, -07" := by
  decide +kernel

end FormScaffold.Log
