import FormScaffold.Yaml.Block

/-!
# Tokens of a document

Indentation and brackets become tokens that open and close collections. A scalar on one line may
turn out to be a key when a colon follows it; then the token of the key, and of the mapping that it
opens, are put in front of it. Documents with brackets that close nothing have no tokens.

Main definitions: `Yaml.Token` and `Yaml.tokens?`.
-/

namespace FormScaffold.Yaml

/-- A tag as it is written. -/
inductive TagText where
  /-- A tag in full. -/
  | full (text : String)
  /-- A handle and what follows it. -/
  | short (handle suffix : String)
  deriving DecidableEq, Repr

/-- The tokens. -/
inductive Token where
  /-- A directive that gives a handle its meaning. -/
  | tagDirective (handle start : String)
  /-- The directive that gives the version. -/
  | versionDirective
  /-- A directive without a meaning here. -/
  | otherDirective
  | documentStart
  | documentEnd
  | blockSequence
  | blockMapping
  | blockEnd
  | flowSequence
  | flowSequenceEnd
  | flowMapping
  | flowMappingEnd
  | flowEntry
  | blockEntry
  | key
  | value
  | alias (name : String)
  | anchor (name : String)
  | tag (t : TagText)
  | scalar (plain : Bool) (text : String)
  deriving DecidableEq, Repr

/-- A token that may become a key. -/
structure KeyPlace where
  /-- The number of tokens before it. -/
  number : Nat
  /-- Whether it must become a key. -/
  required : Bool
  index : Nat
  line : Nat
  column : Nat

/-- What was scanned so far. -/
structure Scanner where
  cursor : Cursor
  tokens : Array Token
  /-- The depth of brackets. -/
  flow : Nat
  indent : Int
  /-- The indentations around, the innermost first. -/
  indents : List Int
  /-- Whether a key may start here. -/
  keyAllowed : Bool
  /-- The tokens that may become keys, by the depth of brackets. -/
  keys : List (Nat × KeyPlace)

namespace Cursor

/-- Behind spaces, comments and line breaks, and whether there was a break. -/
def skipGaps : Nat → Bool → Cursor → Bool × Cursor
  | 0, broken, c => (broken, c)
  | fuel + 1, broken, c =>
    let c := c.skipWhile (· == ' ')
    let c := if c.peek == '#' then c.skipWhile (!isLineEnd ·) else c
    match c.takeBreak? with
    | none => (broken, c)
    | some (_, c) => skipGaps fuel true c

/-- Whether a character belongs to a name. -/
def isNameChar (c : Char) : Bool := c.isAlphanum || c == '-' || c == '_'

/-- Whether a character belongs to a tag. -/
def isTagChar (c : Char) : Bool :=
  c.isAlphanum || "-;/?:@&=+$,_.!~*'()[]%".toList.contains c

/-- The tag characters from here, at least one, with percent codes undone. -/
def tagUri? (c : Cursor) : Option (String × Cursor) :=
  let (cs, c) := c.takeWhile isTagChar
  if cs.isEmpty then none
  else (uriBytes? cs).bind fun bytes =>
    (Text.ofUtf8? (ByteArray.mk bytes.toArray)).map fun s => (s, c)
where
  /-- The bytes that the characters write. -/
  uriBytes? : List Char → Option (List UInt8)
    | [] => some []
    | '%' :: a :: b :: rest => do
      let n ← hexNumber? [a, b]
      return n.toUInt8 :: (← uriBytes? rest)
    | '%' :: _ => none
    | c :: rest => do return c.toNat.toUInt8 :: (← uriBytes? rest)

/-- The handle from here: a word between exclamation marks, or one mark. -/
def tagHandle? (c : Cursor) : Option (String × Cursor) :=
  if c.peek != '!' then none
  else
    let (name, after) := c.next.takeWhile isNameChar
    if after.peek == '!' then some (String.ofList ('!' :: name ++ ['!']), after.next)
    else if name.isEmpty && after.peek == ' ' then some ("!", c.next)
    else none

/-- The tag whose mark stands here. -/
def tag? (c : Cursor) : Option (TagText × Cursor) := do
  let (t, c) ← do
    if c.peekAt 1 == '<' then
      let (uri, c) ← (c.advance 2).tagUri?
      if c.peek == '>' then some (TagText.full uri, c.next) else none
    else if isGap (c.peekAt 1) then some (TagText.full "!", c.next)
    else
      let word := c.next.rest.takeWhile fun ch => !(ch == ' ' || isLineEnd ch)
      let (handle, c) ← if word.contains '!' then c.tagHandle? else some ("!", c.next)
      let (suffix, c) ← c.tagUri?
      some (TagText.short handle suffix, c)
  if c.peek == ' ' || isLineEnd c.peek then some (t, c) else none

/-- The name of an anchor or alias whose mark stands here. -/
def anchorName? (c : Cursor) : Option (String × Cursor) :=
  let (name, c) := c.next.takeWhile isNameChar
  if name.isEmpty then none
  else if isGap c.peek || "?:,]\x7d%@\x60".toList.contains c.peek then some (String.ofList name, c)
  else none

/-- A number of a version. -/
def versionNumber? (c : Cursor) : Option (Nat × Cursor) :=
  let (ds, c) := c.takeWhile Char.isDigit
  if ds.isEmpty then none else some (ds.foldl (fun n d => n * 10 + (d.toNat - 48)) 0, c)

/-- The directive whose mark stands here. -/
def directive? (c : Cursor) : Option (Token × Cursor) := do
  let (name, c) := c.next.takeWhile isNameChar
  if name.isEmpty || !(c.peek == ' ' || isLineEnd c.peek) then none
  else
    let (t, c) ← match String.ofList name with
      | "YAML" => do
        let (major, c) ← (c.skipWhile (· == ' ')).versionNumber?
        if c.peek != '.' || major != 1 then none
        else
          let (_, c) ← c.next.versionNumber?
          if c.peek == ' ' || isLineEnd c.peek then some (Token.versionDirective, c) else none
      | "TAG" => do
        let (handle, c) ← (c.skipWhile (· == ' ')).tagHandle?
        if c.peek != ' ' then none
        else
          let (start, c) ← (c.skipWhile (· == ' ')).tagUri?
          if c.peek == ' ' || isLineEnd c.peek then some (Token.tagDirective handle start, c)
          else none
      | _ => some (Token.otherDirective, c.skipWhile (!isLineEnd ·))
    return (t, ← c.skipLine?)

/-- Whether a plain scalar starts here. -/
def startsPlain (c : Cursor) (inFlow : Bool) : Bool :=
  let ch := c.peek
  if !(isGap ch || "-?:,[]\x7b\x7d#&*!|>'\"%@\x60".toList.contains ch) then true
  else !isGap (c.peekAt 1) && (ch == '-' || (!inFlow && (ch == '?' || ch == ':')))

end Cursor

namespace Scanner

/-- Before the first token. -/
def start (cs : List Char) : Scanner :=
  let c := Cursor.start cs
  ⟨if c.peek.toNat == 0xFEFF then c.next else c, #[], 0, -1, [], true, []⟩

/-- Whether brackets are open. -/
def inFlow (s : Scanner) : Bool := s.flow != 0

/-- One more token. -/
def push (s : Scanner) (t : Token) : Scanner := { s with tokens := s.tokens.push t }

/-- One more token, which takes so many characters. -/
def take (s : Scanner) (t : Token) (size : Nat) : Scanner :=
  { s.push t with cursor := s.cursor.advance size }

/-- Closes the blocks that are indented more than the column. -/
def unwind (s : Scanner) (column : Int) : Scanner :=
  if s.inFlow then s else close s.indents.length s
where
  /-- Closes at most so many blocks. -/
  close : Nat → Scanner → Scanner
    | 0, s => s
    | n + 1, s =>
      if s.indent ≤ column then s
      else close n { s.push .blockEnd with
        indent := s.indents.head?.getD (-1), indents := s.indents.drop 1 }

/-- Opens a block at a column, unless one of that indentation is open. -/
def openBlock (s : Scanner) (column : Nat) (t : Token) (number : Nat) : Scanner :=
  if s.indent < column then
    { s with
      indent := column, indents := s.indent :: s.indents,
      tokens := (s.tokens.extract 0 number).push t ++ s.tokens.extract number s.tokens.size }
  else s

/-- The token of this depth that may become a key. -/
def key? (s : Scanner) : Option KeyPlace := s.keys.lookup s.flow

/-- No token of this depth may become a key any more; one that has to is an error. -/
def dropKey? (s : Scanner) : Option Scanner :=
  if s.key?.any (·.required) then none else some { s with keys := s.keys.filter (·.1 != s.flow) }

/-- The next token may become a key, where keys are allowed. -/
def saveKey? (s : Scanner) : Option Scanner :=
  if !s.keyAllowed then some s
  else do
    let c := s.cursor
    let place := ⟨s.tokens.size, !s.inFlow && s.indent == c.column, c.index, c.line, c.column⟩
    let s ← s.dropKey?
    return { s with keys := (s.flow, place) :: s.keys }

/-- The longest key, in characters. -/
def maxKeySize : Nat := 1024

/-- Whether a token cannot become a key any more, since it ends too far back. -/
def isStale (c : Cursor) (k : KeyPlace) : Bool :=
  k.line != c.line || c.index - k.index > maxKeySize

/-- Keys are on one line and not too long. -/
def dropStaleKeys? (s : Scanner) : Option Scanner :=
  if s.keys.any fun k => isStale s.cursor k.2 && k.2.required then none
  else some { s with keys := s.keys.filter fun k => !isStale s.cursor k.2 }

/-- Ends all blocks before a mark of the whole document. -/
def endBlocks? (s : Scanner) : Option Scanner := do
  let s ← (s.unwind (-1)).dropKey?
  return { s with keyAllowed := false }

/-- A mark of an entry, in a sequence. -/
def entry? (s : Scanner) : Option Scanner := do
  let s ← if s.inFlow then some s
    else if !s.keyAllowed then none
    else some (s.openBlock s.cursor.column .blockSequence s.tokens.size)
  return { (← s.dropKey?).take .blockEntry 1 with keyAllowed := true }

/-- A mark of a key. -/
def explicitKey? (s : Scanner) : Option Scanner := do
  let s ← if s.inFlow then some s
    else if !s.keyAllowed then none
    else some (s.openBlock s.cursor.column .blockMapping s.tokens.size)
  return { (← s.dropKey?).take .key 1 with keyAllowed := !s.inFlow }

/-- A mark of a value: the token before it becomes a key, or an explicit key stands before it. -/
def value? (s : Scanner) : Option Scanner := do
  let s ← match s.key? with
    | some k =>
      let tokens := (s.tokens.extract 0 k.number).push .key ++
        s.tokens.extract k.number s.tokens.size
      let s := { s with tokens, keys := s.keys.filter (·.1 != s.flow), keyAllowed := false }
      some (if s.inFlow then s else s.openBlock k.column .blockMapping k.number)
    | none =>
      if s.inFlow then ({ s with keyAllowed := false }).dropKey?
      else if !s.keyAllowed then none
      else ({ s.openBlock s.cursor.column .blockMapping s.tokens.size with
        keyAllowed := true }).dropKey?
  return s.take .value 1

/-- Opens brackets. -/
def openFlow? (s : Scanner) (t : Token) : Option Scanner := do
  let s ← s.saveKey?
  return { s.take t 1 with flow := s.flow + 1, keyAllowed := true }

/-- Closes brackets. -/
def closeFlow? (s : Scanner) (t : Token) : Option Scanner := do
  let s ← s.dropKey?
  if !s.inFlow then none
  else return { s.take t 1 with flow := s.flow - 1, keyAllowed := false }

/-- A token that may become a key. -/
def mayBeKey? (s : Scanner) (scan : Cursor → Option (Token × Cursor)) : Option Scanner := do
  let s ← s.saveKey?
  let (t, cursor) ← scan s.cursor
  return { s.push t with cursor, keyAllowed := false }

/-- A plain scalar. -/
def plain? (s : Scanner) : Option Scanner := do
  let s ← s.saveKey?
  let (cs, cursor, broken) := s.cursor.plain s.inFlow (s.indent + 1)
  return { s.push (.scalar true (String.ofList cs)) with cursor, keyAllowed := broken }

/-- A block scalar. -/
def block? (s : Scanner) : Option Scanner := do
  let s ← s.dropKey?
  let (cs, cursor) ← s.cursor.block? s.indent
  return { s.push (.scalar false (String.ofList cs)) with cursor, keyAllowed := true }

/-- The token that starts here. -/
def token? (s : Scanner) : Option Scanner :=
  let c := s.cursor
  let gapNext := isGap (c.peekAt 1)
  if c.column == 0 && c.peek == '%' then do
    let s ← s.endBlocks?
    let (t, cursor) ← c.directive?
    return { s.push t with cursor }
  else if c.column == 0 && c.isSeparator then do
    return (← s.endBlocks?).take (if c.peek == '-' then .documentStart else .documentEnd) 3
  else match c.peek with
    | '[' => s.openFlow? .flowSequence
    | '{' => s.openFlow? .flowMapping
    | ']' => s.closeFlow? .flowSequenceEnd
    | '}' => s.closeFlow? .flowMappingEnd
    | ',' => do return { (← s.dropKey?).take .flowEntry 1 with keyAllowed := true }
    | '*' => s.mayBeKey? fun c => c.anchorName?.map fun r => (.alias r.1, r.2)
    | '&' => s.mayBeKey? fun c => c.anchorName?.map fun r => (.anchor r.1, r.2)
    | '!' => s.mayBeKey? fun c => c.tag?.map fun r => (.tag r.1, r.2)
    | '\'' => s.mayBeKey? fun c => c.quoted?.map fun r => (.scalar false (String.ofList r.1), r.2)
    | '"' => s.mayBeKey? fun c => c.quoted?.map fun r => (.scalar false (String.ofList r.1), r.2)
    | ch =>
      if ch == '-' && gapNext then s.entry?
      else if ch == '?' && (s.inFlow || gapNext) then s.explicitKey?
      else if ch == ':' && (s.inFlow || gapNext) then s.value?
      else if (ch == '|' || ch == '>') && !s.inFlow then s.block?
      else if c.startsPlain s.inFlow then s.plain?
      else none

/-- The tokens from here to the end. -/
def run? : Nat → Scanner → Option (List Token)
  | 0, _ => none
  | fuel + 1, s => do
    let (broken, cursor) := s.cursor.skipGaps (s.cursor.rest.length + 1) false
    let s ← ({ s with cursor, keyAllowed := s.keyAllowed || (broken && !s.inFlow) }).dropStaleKeys?
    let s := s.unwind s.cursor.column
    if s.cursor.rest.isEmpty then return (← s.endBlocks?).tokens.toList
    else run? fuel (← s.token?)

end Scanner

/-- The tokens of a document. -/
def tokens? (cs : List Char) : Option (List Token) :=
  (Scanner.start cs).run? (cs.length + 1)

end FormScaffold.Yaml
