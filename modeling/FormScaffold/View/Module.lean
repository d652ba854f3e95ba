import FormScaffold.Contract.Basic
import FormScaffold.Text.Line
import FormScaffold.View.Artifact

/-!
# Modules of an entity

Beside its pages an entity gets six modules: access to its records, the behaviour of its client
scripts, the dependency rules of its fields, its change notices, its actions, and its routes. Data
of the contract enters them as literals.

Main definitions: `Names`, the texts of the six modules (`resourceModule`, …, `routerModule`), and
`bindings`, which gives each workflow transition a function of its own.
-/

namespace FormScaffold.View

/-! ## Names -/

/-- What the files of an entity call it. -/
structure Names where
  entity : String
  slug : String
  component : String
  language : Language
  deriving DecidableEq, Repr

/-- The names of the entity of a contract. -/
def Names.ofContract (c : Contract) (language : Language) : Names :=
  ⟨c.entity, Naming.slug c.entity, Naming.component c.entity, language⟩

/-- A literal of a text. -/
def textLiteral (s : String) : String := Json.literal (.text s)

/-- A declaration of a constant. -/
def constant (name literal : String) : String :=
  "export const " ++ name ++ " = " ++ literal ++ ";"

/-! ## Access to records -/

/-- The fields that a list shows: the name of the record and then the columns. -/
def listFields (c : Contract) : List Value :=
  .text "name" :: (c.columns.map (·.name)).filter fun v => !v.same (.text "name")

/-- The module that reads and writes records. -/
def resourceModule (names : Names) (c : Contract) : String :=
  Region.wrap "resource" <| joinLines
    ["import \x7b createResourceClient \x7d from '../../lib/resource-client';",
      "",
      constant "DOCTYPE" (textLiteral names.entity),
      constant "LIST_FIELDS" (Json.literal (.list (listFields c))),
      "export const resource = createResourceClient(DOCTYPE);"]

/-! ## Dependency rules -/

/-- The state of a field before any rule. -/
def baseState (f : Field) : Value :=
  .record [("hidden", .bool f.hidden), ("required", .bool f.required),
    ("readOnly", .bool f.readOnly)]

/-- The rules of a field. -/
def fieldRules (f : Field) : Entries :=
  f.dependencies.map fun d => (d.1.key, d.2.expression.toValue)

/-- The base states of fields under their names. -/
def baseStates (fields : List Field) : Value :=
  (Keyed.ofList (fields.map fun f => (f.name, baseState f))).toValue id

/-- The fields that have rules, with their names. -/
def ruledFields (fields : List Field) : List (Value × Value) :=
  (fields.map fun f => (f.name, fieldRules f)).filterMap fun p =>
    if p.2.isEmpty then none else some (p.1, .record p.2)

/-- The rules of fields under their names. -/
def rulesOf (fields : List Field) : Keyed Value := Keyed.ofList (ruledFields fields)

/-- The base states of the fields of child tables. -/
def childStates (c : Contract) : Value := c.childTables.toValue fun t => baseStates t.fields

/-- The rules of the fields of child tables that have any. -/
def childRules (c : Contract) : Value :=
  Keyed.toValue (List.filter (fun p => !(rulesOf p.2.fields).isEmpty) c.childTables) fun t =>
    (rulesOf t.fields).toValue id

/-- The functions that look up the state of a field. -/
def stateTemplate : String :=
  r#"export function getFieldState(fieldname#{: string}#, doc#{: Record<string, any>}#) {
  return fieldState(BASE_STATE[fieldname], RULES[fieldname], doc);
}

export function getChildFieldState(tableField#{: string}#, fieldname#{: string}#, row#{: Record<string, any>}#) {
  const base = (CHILD_BASE_STATE[tableField] || {})[fieldname];
  const rules = (CHILD_RULES[tableField] || {})[fieldname];
  return fieldState(base, rules, row);
}
"#

/-- The module of the dependency rules. -/
def dependsModule (names : Names) (c : Contract) : String :=
  Region.wrap "rules" <| joinLines
    ["import \x7b fieldState \x7d from '../../lib/depends-eval';",
      "",
      constant "BASE_STATE" (Json.block (baseStates c.fields)),
      "",
      constant "RULES" (Json.block ((rulesOf c.fields).toValue id)),
      "",
      constant "CHILD_BASE_STATE" (Json.block (childStates c)),
      "",
      constant "CHILD_RULES" (Json.block (childRules c)),
      "",
      typed names.language stateTemplate]

/-! ## Client behaviour -/

/-- The functions that bind and run handlers. -/
def behaviorTemplate : String :=
  r#"export function bindBehavior(handlers#{: Record<string, Function>}#) {
  return registerHandlers(DOCTYPE, handlers);
}

export function createForm(options#{: any}#) {
  return createFormShim({ doctype: DOCTYPE, ...options });
}

export function runFormEvent(event#{: string}#, frm#{: any}#) {
  return trigger(DOCTYPE, event, frm);
}

export function runFieldChange(fieldname#{: string}#, frm#{: any}#) {
  return triggerFieldChange(DOCTYPE, fieldname, frm);
}
"#

/-- Names from all behaviours, each once, in order of first mention. -/
def eventsOf (c : Contract) (events : Behavior → List String) : List String :=
  (c.behaviors.flatMap events).eraseDups

/-- The module of the client behaviour. -/
def behaviorModule (names : Names) (c : Contract) : String :=
  Region.wrap "hooks" <| joinLines
    ["import \x7b createFormShim, registerHandlers, trigger, triggerFieldChange \x7d from '../../lib/behavior-shim';",
      "",
      constant "DOCTYPE" (textLiteral names.entity),
      constant "CLIENT_SCRIPTS" (Json.block (.list (c.behaviors.map Behavior.toValue))),
      constant "FORM_EVENTS" (Json.literal (.ofTexts (eventsOf c (·.formEvents)))),
      constant "FIELD_EVENTS" (Json.literal (.ofTexts (eventsOf c (·.fieldEvents)))),
      "",
      typed names.language behaviorTemplate]

/-! ## Change notices -/

/-- The module of the change notices. -/
def realtimeModule (names : Names) (c : Contract) : String :=
  Region.wrap "subscription" <| typed names.language <| joinLines
    ["import \x7b useEffect \x7d from 'react';",
      "import \x7b subscribe \x7d from '../../lib/realtime';",
      "",
      constant "TOPIC" (textLiteral c.topic),
      "",
      r#"export function useRealtime(onChange#{: (payload?: any) => void}#) {"#,
      r#"  useEffect(() => subscribe(TOPIC, onChange), [onChange]);"#,
      r#"}"#,
      ""]

/-! ## Actions -/

/-- A name that is not in use: the base itself, or the base with the least number from 2 on. -/
def freshName (used : List String) (base : String) : String :=
  if used.contains base then
    (((List.range (used.length + 1)).map fun k => base ++ toString (k + 2)).find?
      (!used.contains ·)).getD base
  else base

/-- The name that the function of a transition would like. -/
def bindingBase (t : Transition) : String :=
  Naming.function (t.action ++ " from " ++ t.source)

/-- The names of the functions of transitions, distinct from each other and those in use. -/
def bindingNames (used : List String) : List Transition → List String
  | [] => []
  | t :: ts =>
    let name := freshName used (bindingBase t)
    name :: bindingNames (used ++ [name]) ts

/-- The transitions with the names of their functions. -/
def bindings (ts : List Transition) : List (String × Transition) := (bindingNames [] ts).zip ts

/-- The functions that read and write records. -/
def crudTemplate : String :=
  r#"export function listRecords(options#{: any}# = {}) {
  return resource.list({ fields: LIST_FIELDS, ...options });
}

export function getRecord(name#{: string}#) {
  return resource.get(name);
}

export function createRecord(doc#{: Record<string, any>}#) {
  return resource.insert(doc);
}

export function updateRecord(name#{: string}#, doc#{: Record<string, any>}#) {
  return resource.update(name, doc);
}

export function deleteRecord(name#{: string}#) {
  return resource.remove(name);
}
"#

/-- The part of the actions that reads and writes records. -/
def crudActions (names : Names) : String :=
  typed names.language
    ("import \x7b resource, LIST_FIELDS \x7d from '../pages/" ++ names.slug ++ "/resource';\n\n" ++
      crudTemplate)

/-- The function of a transition, with a comment above it. -/
def transitionLines (names : Names) (b : String × Transition) : List String :=
  ["// " ++ commentLine b.2.source ++ " -> " ++ commentLine b.2.target,
    typed names.language ("export function " ++ b.1 ++ r#"(name#{: string}#) {"#),
    "  return applyWorkflowAction(" ++ textLiteral names.entity ++ ", name, " ++
      textLiteral b.2.action ++ ");",
    "\x7d",
    ""]

/-- The part of the actions that drives the workflow. -/
def workflowActions (names : Names) (c : Contract) : String :=
  let bound := bindings c.transitions
  joinLines <|
    ["import \x7b applyWorkflowAction \x7d from '../lib/resource-client';",
      "",
      constant "WORKFLOW_STATE_FIELD" (Json.literal (.ofText? (c.workflow.map (·.stateField)))),
      constant "WORKFLOW_ACTIONS" (Json.block (.list (bound.map (·.2.toValue)))),
      ""] ++
    bound.flatMap (transitionLines names) ++
    [typed names.language
        r#"export function availableActions(state#{: string}#, roles#{: string[]}# = []) {"#,
      "  return WORKFLOW_ACTIONS.filter(",
      "    (t) => t.fromState === state && (!t.allowed || roles.includes(t.allowed)),",
      "  );",
      "\x7d",
      "",
      typed names.language
        r#"export function runWorkflowAction(name#{: string}#, action#{: string}#) {"#,
      "  return applyWorkflowAction(" ++ textLiteral names.entity ++ ", name, action);",
      "\x7d"]

/-- What declares the permissions. -/
def permissionsHead : String := "export const PERMISSIONS = "

/-- What declares the permissions with their type. -/
def typedPermissionsHead : String :=
  "export const PERMISSIONS: Record<string, Record<string, boolean>> = "

/-- The function that looks up a permission. -/
def canTemplate : String :=
  r#";

export function can(capability#{: string}#, roles#{: string[]}# = []) {
  return roles.some((role) => Boolean(PERMISSIONS[role] && PERMISSIONS[role][capability]));
}
"#

/-- The declarations of the permissions in a language. -/
def declarePermissions (language : Language) (text : String) : String :=
  match language with
  | .js => text
  | .ts => String.ofList
      (Text.replaceAll permissionsHead.toList typedPermissionsHead.toList text.toList)

/-- The part of the actions that knows the permissions. -/
def permissionActions (names : Names) (c : Contract) : String :=
  declarePermissions names.language <| typed names.language <|
    permissionsHead ++ Json.block (c.permissions.toValue Grants.toValue) ++ canTemplate

/-- The module of the actions. -/
def actionsModule (names : Names) (c : Contract) : String :=
  Region.wrap "crud-actions" (crudActions names) ++ "\n" ++
    Region.wrap "workflow-actions" (workflowActions names c) ++ "\n" ++
    Region.wrap "permissions" (permissionActions names c)

/-! ## Routes -/

/-- The route of an entity. -/
def route (names : Names) : String := "/app/" ++ names.slug

/-- One route of the table. -/
def routeLine (path name component : String) : String :=
  "  \x7b path: " ++ textLiteral path ++ ", name: " ++ textLiteral name ++ ", component: " ++
    component ++ " \x7d,"

/-- The module of the routes. -/
def routerModule (names : Names) : String :=
  Region.wrap "routes" <| joinLines
    ["import \x7b lazy \x7d from 'react';",
      "",
      "const List = lazy(() => import('../pages/" ++ names.slug ++ "/List'));",
      "const Form = lazy(() => import('../pages/" ++ names.slug ++ "/Form'));",
      "",
      "export const routes = [",
      routeLine (route names) (names.slug ++ "-list") "List",
      routeLine (route names ++ "/new") (names.slug ++ "-new") "Form",
      routeLine (route names ++ "/:name") (names.slug ++ "-form") "Form",
      "];",
      "",
      "export default routes;"]

end FormScaffold.View
