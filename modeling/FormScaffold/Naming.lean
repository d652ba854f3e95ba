import FormScaffold.Text.Blank
import FormScaffold.Text.Case

/-!
# Names derived from names

Entities are named in free text. Paths and routes use the name's slug (`sales-order`), components
its capitalised form (`SalesOrder`), functions its camel form (`salesOrder`); a field without a
label is labelled by its own name. Slugs and component names hold ASCII letters and digits only,
beside the hyphens of a slug.
-/

namespace FormScaffold.Naming

/-- The capitals and the small letters are those of ASCII. -/
def isWordPart (c : Char) : Bool := c.isAlphanum

/-- Puts a hyphen before each capital that is followed by a small letter and preceded by any
character on its line. `inWord` says that the small letters of such a word are being read. -/
def hyphenateWords (inWord : Bool) : List Char → List Char
  | [] => []
  | c :: u :: l :: rest =>
    if inWord && c.isLower then c :: hyphenateWords true (u :: l :: rest)
    else if c != '\n' && u.isUpper && l.isLower then c :: '-' :: u :: l :: hyphenateWords true rest
    else c :: hyphenateWords false (u :: l :: rest)
  | c :: rest => c :: hyphenateWords false rest

/-- Puts a hyphen between a small letter or digit and a capital. -/
def hyphenateCapitals : List Char → List Char
  | c :: u :: rest =>
    if (c.isLower || c.isDigit) && u.isUpper then c :: '-' :: hyphenateCapitals (u :: rest)
    else c :: hyphenateCapitals (u :: rest)
  | cs => cs

/-- The maximal runs of ASCII letters and digits. -/
def parts (cs : List Char) : List (List Char) :=
  (cs.splitOnP fun c => !isWordPart c).filter (!·.isEmpty)

/-- The words of a name in small letters with hyphens between them. -/
def kebab (cs : List Char) : List Char :=
  ['-'].intercalate ((parts (hyphenateCapitals (hyphenateWords false cs))).map fun p =>
    p.map Char.toLower)

/-- A word with a capital first letter. -/
def capital : List Char → List Char
  | [] => []
  | c :: cs => c.toUpper :: cs

/-- Puts an `E` in front of a name that is empty or starts with a digit. -/
def letterFirst (cs : List Char) : List Char :=
  match cs with
  | [] => ['E']
  | c :: _ => if c.isDigit then 'E' :: cs else cs

/-- The words of a name, each capitalised, without anything between them. -/
def pascal (cs : List Char) : List Char := letterFirst ((parts cs).flatMap capital)

/-- The first letter in its small form. -/
def small : List Char → List Char
  | [] => []
  | c :: cs => c.toLower :: cs

/-- The name of a component. -/
def component (name : String) : String := String.ofList (pascal name.toList)

/-- The name of a function. -/
def function (name : String) : String := String.ofList (small (pascal name.toList))

/-- The slug of an entity, for paths and routes. -/
def slug (name : String) : String := String.ofList (kebab name.toList)

/-- The topic under which changes of an entity are announced. -/
def topic (name : String) : String := "doctype:" ++ slug name

/-- The label of a field that has only a name. -/
def label (fieldName : String) : String :=
  let words := (fieldName.toList.splitOnP fun c => c == '_' || c == '-').filter (!·.isEmpty)
  String.ofList ([' '].intercalate (words.map Text.capitalize))

example : slug "XMLHttpRequest" = "xml-http-request" := by decide +kernel
example : function "Sales Order" = "salesOrder" := by decide +kernel

end FormScaffold.Naming
