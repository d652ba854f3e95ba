import FormScaffold.Contract.Script
import FormScaffold.Contract.Warning

/-!
# Workflows

The workflow of an entity has states and transitions between them. States without a name are left
out, and so are transitions that lack a state or their action, with a warning. A workflow that is
switched off is none.

Main definitions: `Workflow`, `Transition` and `readWorkflow`.
-/

namespace FormScaffold

/-- A state of a workflow. -/
structure WorkflowState where
  state : String
  docStatus : Int
  allowEdit : Option String
  deriving DecidableEq, Repr

/-- The state as data. -/
def WorkflowState.toValue (s : WorkflowState) : Value :=
  .record [("state", .text s.state), ("docStatus", .int s.docStatus),
    ("allowEdit", .ofText? s.allowEdit)]

/-- A transition of a workflow. -/
structure Transition where
  source : String
  action : String
  target : String
  /-- The role that may take it, when it is restricted. -/
  allowed : Option String
  deriving DecidableEq, Repr

/-- The transition as data. -/
def Transition.toValue (t : Transition) : Value :=
  .record [("fromState", .text t.source), ("action", .text t.action), ("toState", .text t.target),
    ("allowed", .ofText? t.allowed)]

/-- A workflow with its states; its transitions are kept apart. -/
structure Workflow where
  name : String
  stateField : String
  states : List WorkflowState
  deriving DecidableEq, Repr

/-- The workflow as data. -/
def Workflow.toValue (w : Workflow) : Value :=
  .record [("name", .text w.name), ("stateField", .text w.stateField),
    ("states", .list (w.states.map WorkflowState.toValue))]

/-- A raw state, unless it has no name. -/
def readState (v : Value) : Except Fault (Option WorkflowState) := do
  let raw ← v.entries
  match (raw.get "state").label? with
  | none => return none
  | some state =>
    let docStatus ← ((raw.get "doc_status").orElse (.int 0)).toIntOr 0
    return some ⟨state, docStatus, (raw.get "allow_edit").label?⟩

/-- A raw transition, unless it lacks a part. -/
def readTransition (v : Value) : Except Fault (Option Transition) := do
  let raw ← v.entries
  match (raw.get "state").label?, (raw.get "action").label?, (raw.get "next_state").label? with
  | some source, some action, some target =>
    return some ⟨source, action, target, (raw.get "allowed").label?⟩
  | _, _, _ => return none

/-- The transitions that are complete, and warnings about the others; the first one has the given
place. -/
def splitTransitions (place : Nat) : List (Option Transition) → List Transition × List Warning
  | [] => ([], [])
  | t :: ts =>
    let (complete, warnings) := splitTransitions (place + 1) ts
    match t with
    | some t => (t :: complete, warnings)
    | none => (complete, .incompleteTransition place :: warnings)

/-- The states and the transitions of raw workflow entries. -/
def readParts (raw : Entries) :
    Except Fault (Option Workflow × List Transition × List Warning) := do
  let states ← (← (raw.get "states").elementsOrNone).mapM readState
  let transitions ← (← (raw.get "transitions").elementsOrNone).mapM readTransition
  let workflow : Workflow := {
    name := ((raw.get "workflow_name").label? <|> (raw.get "name").label?).getD ""
    stateField := (raw.get "workflow_state_field").label?.getD "workflow_state"
    states := states.filterMap id }
  return (some workflow, splitTransitions 0 transitions)

/-- A raw workflow: its description, its transitions and the warnings about them. -/
def readWorkflow (v : Value) :
    Except Fault (Option Workflow × List Transition × List Warning) := do
  if !v.truthy then return (none, [], [])
  else
    let raw ← v.entries
    if flagOrSet raw "is_active" then readParts raw else return (none, [], [])

end FormScaffold
