import FormScaffold.Value.Basic
import FormScaffold.Text.Letter
import FormScaffold.Value.Fault

/-!
# Client scripts

A client script is searched for the handlers that it declares; it is never run. A handler is a name
with a parameter list that starts with `frm`: `refresh(frm)`, `refresh: function(frm, …)`. Handlers
named like a field react to changes of the field, the others to events of the form.

Main definitions: `handlers` and `Behavior`.
-/

namespace FormScaffold

open Text

/-- The text without blanks at its start. -/
def skipBlanks (cs : List Char) : List Char := cs.dropWhile isBlank

/-- What follows a piece of text at the start of the text. -/
def after? (piece cs : List Char) : Option (List Char) :=
  if piece.isPrefixOf cs then some (cs.drop piece.length) else none

/-- What follows the first parameter of a parameter list, when it is `frm`. -/
def takeParameters? (cs : List Char) : Option (List Char) := do
  let inside ← after? ['('] cs
  match skipBlanks (← after? "frm".toList (skipBlanks inside)) with
  | ',' :: rest => some rest
  | ')' :: rest => some rest
  | _ => none

/-- The text after a colon, the blanks around it, and the word `function` with its blanks. -/
def skipFunction (cs : List Char) : List Char :=
  match cs with
  | ':' :: rest =>
    let rest := skipBlanks rest
    match after? "function".toList rest with
    | some left => skipBlanks left
    | none => rest
  | cs => cs

/-- A handler at the start of the text: its name and what follows its first parameter. -/
def takeHandler? (cs : List Char) : Option (List Char × List Char) :=
  let (name, rest) := cs.span isWordChar
  (takeParameters? (skipFunction (skipBlanks rest))).map fun left => (name, left)

/-- The names of all handlers in a text; `inWord` says that the character before it continues a
word. -/
def handlerNames (inWord : Bool) (cs : List Char) : List String :=
  match cs with
  | [] => []
  | c :: rest =>
    match if !inWord && isNameStart c then takeHandler? (c :: rest) else none with
    | some (name, left) =>
      if left.length ≤ rest.length then
        String.ofList name :: handlerNames false left
      else []
    | none => handlerNames (isWordChar c) rest
  termination_by cs.length

/-- The words before a parameter list that name no handler. -/
def notHandlers : List String := ["function", "on", "if", "for", "while", "switch", "return"]

/-- The handlers of a script, each once, in order of first mention. -/
def handlers (script : String) : List String :=
  ((handlerNames false script.toList).filter (!notHandlers.contains ·)).eraseDups

/-- What a client script reacts to. -/
structure Behavior where
  name : String
  view : String
  formEvents : List String
  fieldEvents : List String
  deriving DecidableEq, Repr

/-- The behaviour as data. -/
def Behavior.toValue (b : Behavior) : Value :=
  .record [("name", .text b.name), ("view", .text b.view), ("formEvents", .ofTexts b.formEvents),
    ("fieldEvents", .ofTexts b.fieldEvents)]

/-- The text of a script. -/
def scriptText : Value → Except Fault String
  | .text s => .ok s
  | v => if v.truthy then .error .notSearchable else .ok ""

/-- Whether an optional flag is set; it is when it is absent. -/
def flagOrSet (es : Entries) (key : String) : Bool := ((es.get? key).map Value.flag).getD true

/-- The behaviours of raw scripts, the first of which has the given place; a script that is
switched off has none. -/
def behaviorsFrom (fieldNames : List Value) (place : Nat) :
    List Value → Except Fault (List Behavior)
  | [] => .ok []
  | v :: vs => do
    let raw ← v.entries
    if flagOrSet raw "enabled" then
      let found := handlers (← scriptText (raw.get "script"))
      let isField (h : String) : Bool := fieldNames.any (·.same (.text h))
      let b : Behavior := {
        name := (raw.get "name").label?.getD ("script-" ++ toString place)
        view := (raw.get "view").label?.getD "Form"
        formEvents := found.filter (!isField ·)
        fieldEvents := found.filter isField }
      return b :: (← behaviorsFrom fieldNames (place + 1) vs)
    else behaviorsFrom fieldNames (place + 1) vs

/-- The behaviours of an entity whose data fields have the given names. -/
def behaviors (scripts : Value) (fieldNames : List Value) : Except Fault (List Behavior) := do
  fieldNames.forM fun v => do
    let _ ← v.key
  behaviorsFrom fieldNames 0 (← scripts.elementsOrNone)

end FormScaffold
