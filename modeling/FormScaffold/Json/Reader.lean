import FormScaffold.Json.Token
import FormScaffold.Value.Basic

/-!
# Reading JSON

The tokens of a text are read one by one. What is open is kept on a stack: lists with the items
read so far, records with their entries and perhaps a key that waits for its value. Of repeated
keys the first keeps its place and the last its value.

Main definition: `Json.read?`.
-/

namespace FormScaffold.Json

/-- A list or record that is not closed yet. -/
inductive Frame where
  /-- A list with its items, last first. -/
  | list (items : List Value)
  /-- A record, between entries. -/
  | record (entries : Entries)
  /-- A record whose last key waits for its value. -/
  | keyed (entries : Entries) (key : String)
  deriving Repr

/-- What may come next. -/
inductive Expect where
  /-- A value. -/
  | value
  /-- A value, or the end of a list that is still empty. -/
  | valueOrEnd
  /-- A key. -/
  | key
  /-- A key, or the end of a record that is still empty. -/
  | keyOrEnd
  /-- The colon after a key. -/
  | colon
  /-- A comma, or the end of what is open. -/
  | commaOrEnd
  /-- Nothing more; the value is complete. -/
  | nothing (v : Value)
  deriving Repr

/-- A reader's state: what may come next and what is open, innermost first. -/
structure State where
  expect : Expect
  stack : List Frame
  deriving Repr

/-- A complete value goes into what is open, or is the result. -/
def State.complete (stack : List Frame) (v : Value) : Option State :=
  match stack with
  | [] => some ⟨.nothing v, []⟩
  | .list items :: rest => some ⟨.commaOrEnd, .list (v :: items) :: rest⟩
  | .keyed entries key :: rest => some ⟨.commaOrEnd, .record (entries.put key v) :: rest⟩
  | .record _ :: _ => none

/-- Whether a value may come next. -/
def Expect.takesValue : Expect → Bool
  | .value | .valueOrEnd => true
  | _ => false

/-- A scalar where a value may stand. -/
def State.scalar (s : State) (v : Value) : Option State :=
  if s.expect.takesValue then State.complete s.stack v else none

/-- One token more. -/
def State.step (s : State) : Token → Option State
  | .null => s.scalar .null
  | .bool b => s.scalar (.bool b)
  | .int n => s.scalar (.int n)
  | .real x => s.scalar (.real x)
  | .text t =>
    match s.expect, s.stack with
    | .key, .record entries :: rest => some ⟨.colon, .keyed entries t :: rest⟩
    | .keyOrEnd, .record entries :: rest => some ⟨.colon, .keyed entries t :: rest⟩
    | _, _ => s.scalar (.text t)
  | .openList => if s.expect.takesValue then some ⟨.valueOrEnd, .list [] :: s.stack⟩ else none
  | .openRecord => if s.expect.takesValue then some ⟨.keyOrEnd, .record [] :: s.stack⟩ else none
  | .closeList =>
    match s.expect, s.stack with
    | .valueOrEnd, .list items :: rest => State.complete rest (.list items.reverse)
    | .commaOrEnd, .list items :: rest => State.complete rest (.list items.reverse)
    | _, _ => none
  | .closeRecord =>
    match s.expect, s.stack with
    | .keyOrEnd, .record entries :: rest => State.complete rest (.record entries)
    | .commaOrEnd, .record entries :: rest => State.complete rest (.record entries)
    | _, _ => none
  | .comma =>
    match s.expect, s.stack with
    | .commaOrEnd, .list items :: rest => some ⟨.value, .list items :: rest⟩
    | .commaOrEnd, .record entries :: rest => some ⟨.key, .record entries :: rest⟩
    | _, _ => none
  | .colon =>
    match s.expect with
    | .colon => some ⟨.value, s.stack⟩
    | _ => none

/-- The state after a row of tokens. -/
def State.run (s : State) (ts : List Token) : Option State := ts.foldlM State.step s

/-- Before the first token. -/
def State.start : State := ⟨.value, []⟩

/-- The value, when it is complete. -/
def State.result? (s : State) : Option Value :=
  match s.expect with
  | .nothing v => some v
  | _ => none

/-- The value that a JSON text writes, when it writes exactly one. -/
def read? (cs : List Char) : Option Value := do
  let ts ← Token.scan cs
  let s ← State.start.run ts
  s.result?

/-- A text that starts with a byte order mark is refused. -/
def readText? (s : String) : Option Value := read? s.toList

end FormScaffold.Json
