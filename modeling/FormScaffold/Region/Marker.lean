import FormScaffold.Text.Blank
import FormScaffold.Text.Line
import FormScaffold.Text.Quoted

/-!
# Region markers

A generated file holds named regions. A region stands between two marker lines, which are comments
of the generated language:

    // >>> doctype-ui:begin columns
    …
    // <<< doctype-ui:end columns

A marker line may be indented, and blanks may follow the name.

Main definitions: `Mark.ofLine`, which says what a line marks, and `Region.wrap`, which puts a body
between its markers.
-/

namespace FormScaffold.Region

open Text

/-- What stands before the name on the line where a region begins. -/
def beginTag : List Char := "// >>> doctype-ui:begin ".toList

/-- What stands before the name on the line where a region ends. -/
def endTag : List Char := "// <<< doctype-ui:end ".toList

/-- The blanks that may surround a marker. -/
def isIndent (c : Char) : Bool := c == ' ' || c == '\t'

/-- The characters of a name on a marker line. -/
def isNamePart (c : Char) : Bool := !isBlank c

/-- The name on a line that consists of the tag and a name, with blanks around them. -/
def nameAfter (tag : List Char) (line : List Char) : Option String :=
  let line := line.dropWhile isIndent
  if tag.isPrefixOf line then
    let (name, rest) := (line.drop tag.length).span isNamePart
    if name.isEmpty || !rest.all isIndent then none else some (String.ofList name)
  else none

/-- What a line marks. -/
inductive Mark where
  /-- A region begins. -/
  | begins (name : String)
  /-- A region ends. -/
  | ends (name : String)
  /-- The line is no marker. -/
  | plain
  deriving DecidableEq, Repr

/-- What a line, with its break, marks. -/
def Mark.ofLine (line : List Char) : Mark :=
  let bare := stripBreak line
  match nameAfter beginTag bare with
  | some name => .begins name
  | none =>
    match nameAfter endTag bare with
    | some name => .ends name
    | none => .plain

/-- Whether a line is a marker of some region. -/
def isMarkerLine (line : List Char) : Bool := Mark.ofLine line != .plain

/-- The characters with which a name starts. -/
def isNameStart (c : Char) : Bool := c.isLower || c.isDigit

/-- The characters that continue a name. -/
def isNameRest (c : Char) : Bool := isNameStart c || c == '_' || c == '.' || c == ':' || c == '-'

/-- Whether the characters make up a name. -/
def isPlainName : List Char → Bool
  | [] => false
  | c :: cs => isNameStart c && cs.all isNameRest

/-- Whether a region may have the name; one line feed at the end is not looked at. -/
def isName (name : String) : Bool :=
  let cs := name.toList
  isPlainName (if cs.getLast? == some '\n' then cs.dropLast else cs)

/-- A name that no region may have. -/
structure InvalidName where
  name : String
  deriving DecidableEq, Repr

/-- The refusal in words. -/
def InvalidName.message (e : InvalidName) : String :=
  "Invalid region name: " ++ Text.quoted e.name

/-- The body with a line feed at its end, unless it is empty. -/
def closed (body : List Char) : List Char :=
  if body.isEmpty || body.getLast? == some '\n' then body else body ++ ['\n']

/-- The body between the markers of the name. -/
def between (name : List Char) (body : List Char) : List Char :=
  beginTag ++ name ++ '\n' :: closed body ++ (endTag ++ name ++ ['\n'])

/-- The body between the markers of the name, if a region may have that name. -/
def wrap? (name body : String) : Except InvalidName String :=
  if isName name then .ok (String.ofList (between name.toList body.toList)) else .error ⟨name⟩

/-- The body between the markers of a name known to be valid. -/
def wrap (name body : String) : String := String.ofList (between name.toList body.toList)

/-- A body is wrapped under every valid name. -/
theorem wrap?_eq_ok {name body : String} (h : isName name = true) :
    wrap? name body = .ok (wrap name body) := by
  simp [wrap?, wrap, h]

end FormScaffold.Region
