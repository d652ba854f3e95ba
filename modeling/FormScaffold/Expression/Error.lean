import FormScaffold.Expression.Token
import FormScaffold.Value.Display

/-!
# Why an expression is refused

A refusal has a cause, a place in the text and the text itself.
-/

namespace FormScaffold.Expression

/-- Why an expression is refused. -/
inductive Cause where
  /-- The value is not a text. -/
  | notText
  /-- The text is blank. -/
  | blank
  /-- The text is longer than allowed. -/
  | tooLong
  /-- A character that starts no token. -/
  | character (spelling : String)
  /-- Another token was due; nothing was found at the end of the text. -/
  | expected (kind : String) (found : Option Lexeme)
  /-- A token that cannot stand here. -/
  | token (found : Lexeme)
  /-- The text ended too early. -/
  | ending
  /-- A point after a field. -/
  | attribute
  /-- A call. -/
  | call
  /-- An index. -/
  | index
  /-- Something other than a literal in a list. -/
  | listItem
  /-- Two items of a list without a comma between them. -/
  | listSeparator
  /-- Too many groups and negations inside one another. -/
  | tooDeep
  deriving Repr

/-- The cause in words. -/
def Cause.message : Cause → String
  | .notText => "Expression must be a string"
  | .blank => "Empty expression"
  | .tooLong => "Expression too long"
  | .character spelling => "Unexpected character " ++ Text.quoted spelling
  | .expected kind found =>
    "Expected " ++ Text.quoted kind ++ ", found " ++
      (match found with
        | some lexeme => lexeme.shown.quoted
        | none => "end of expression")
  | .token found => "Unexpected token " ++ found.shown.quoted
  | .ending => "Unexpected end of expression"
  | .attribute => "Attribute access is not allowed"
  | .call => "Function calls are not allowed"
  | .index => "Indexing is not allowed"
  | .listItem => "Membership lists may only contain literals"
  | .listSeparator => "Expected ',' or ']'"
  | .tooDeep => "Expression nested too deeply"

/-- A refused expression. -/
structure ParseError where
  cause : Cause
  /-- The place of the code point at which the text was refused. -/
  position : Nat
  /-- The refused text. -/
  expression : String
  deriving Repr

/-- The refusal without its place. -/
def ParseError.message (e : ParseError) : String := e.cause.message

/-- The code of a refusal. -/
def errorCode : String := "EXPRESSION_PARSE_ERROR"

/-- The refusal with its place and its text. -/
def ParseError.text (e : ParseError) : String :=
  errorCode ++ ": " ++ e.message ++ " at position " ++ toString e.position ++ " in " ++
    Text.quoted e.expression

end FormScaffold.Expression
