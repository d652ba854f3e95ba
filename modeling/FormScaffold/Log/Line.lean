import FormScaffold.Log.Filling

/-!
# Lines of the log

A line names its level and its origin, then what is being compiled, then what happened.

Main definitions: `Log.Event` and `Log.Event.line`.
-/

namespace FormScaffold.Log

/-- Something that happened. -/
structure Event where
  level : String
  /-- The part of the program in which it happened. -/
  origin : String
  message : String
  /-- What fills the places of the message; without any, the message has no places. -/
  values : List Value
  /-- What is being compiled: the entity, the stage and the path. -/
  context : Entries

namespace Event

/-- What happened, in words. -/
def text (e : Event) : Except FillError String :=
  if e.values.isEmpty then .ok e.message else fill e.message e.values

/-- A part of the context, or a dash. -/
def contextText (e : Event) (key : String) : String :=
  match e.context.get? key with
  | some v => v.display
  | none => "-"

/-- The line for an event, after its time. -/
def line (e : Event) : Except FillError String := do
  let text ← e.text
  return e.level ++ " " ++ e.origin ++ " [entity=" ++ e.contextText "entity" ++ " stage=" ++
    e.contextText "stage" ++ " path=" ++ e.contextText "path" ++ "] - " ++ text

end Event

end FormScaffold.Log
