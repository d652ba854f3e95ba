import FormScaffold.Text.Blank
import FormScaffold.Value.Display

/-!
# Annotations and comments in templates

Views are generated in two languages. Templates write type annotations as `#\x7b…\x7d#`; the typed
language keeps what stands inside, the untyped one drops it. An annotation stands on one line and
ends at the first `\x7d#`. Text of a schema that is put into a comment of generated code stays on
one line, and cannot close a block comment.

Main definitions: `Language`, `annotate` and `comment`.
-/

namespace FormScaffold

/-- The languages in which views are generated. -/
inductive Language where
  /-- Without types. -/
  | js
  /-- With types. -/
  | ts
  deriving DecidableEq, Repr

/-- The word for a language, which is also the ending of its files. -/
def Language.word : Language → String
  | .js => "js"
  | .ts => "ts"

/-- The language of a word. -/
def Language.ofWord? (word : String) : Option Language :=
  [Language.js, Language.ts].find? (·.word == word)

namespace View

/-! ## Annotations -/

/-- What stands before the first `\x7d#` of the line, and what follows it. -/
def untilClose : List Char → Option (List Char × List Char)
  | [] => none
  | '\x7d' :: '#' :: rest => some ([], rest)
  | c :: rest => if c == '\n' then none else (untilClose rest).map fun r => (c :: r.1, r.2)

/-- The mark that closes an annotation is consumed. -/
theorem length_of_untilClose {cs inside rest : List Char}
    (h : untilClose cs = some (inside, rest)) : rest.length < cs.length := by
  fun_induction untilClose cs generalizing inside rest <;> grind [Option.map_eq_some_iff]

/-- The template text in a language. -/
def annotate (language : Language) (cs : List Char) : List Char :=
  match cs with
  | [] => []
  | '#' :: '\x7b' :: rest =>
    match _h : untilClose rest with
    | some (inside, left) =>
      (match language with
        | .ts => inside
        | .js => []) ++ annotate language left
    | none => '#' :: annotate language ('\x7b' :: rest)
  | c :: rest => c :: annotate language rest
  termination_by cs.length
  decreasing_by
    · have := length_of_untilClose _h
      simp; omega
    · simp
    · simp

/-- The template text in a language, as a string. -/
def typed (language : Language) (template : String) : String :=
  String.ofList (annotate language template.toList)

/-! ## Comments -/

/-- Puts a space into every closing mark of a block comment. -/
def splitClosers : List Char → List Char
  | '*' :: '/' :: rest => '*' :: ' ' :: '/' :: splitClosers rest
  | c :: rest => c :: splitClosers rest
  | [] => []

/-- There is nothing to split in nothing. -/
@[simp] theorem splitClosers_nil : splitClosers [] = [] := by simp [splitClosers]

/-- A text as one line of a comment. -/
def commentLine (s : String) : String :=
  String.ofList (splitClosers (Text.oneSpaced s.toList))

/-- A value as one line of a comment. -/
def comment (v : Value) : String := commentLine v.display

end View

end FormScaffold
