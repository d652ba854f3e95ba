import FormScaffold.Proofs.View.Bodies
import FormScaffold.View.Render

/-! # Generated files as documents

A contract is rendered as files of twelve kinds. Each is a document: its regions, and the text
around them, are the same for all contracts of an entity.

* **`FileKind`** — the kinds, with their paths, their regions and their blocks;
* **`isProper_blocks`** — the blocks of every kind are proper;
* `isDocument_artifacts` — the files of a contract are the documents of their kinds. -/

namespace FormScaffold.View

open Region Text

/-! ## Kinds of files -/

/-- The kinds of generated files. -/
inductive FileKind where
  /-- Access to records, shared by all entities. -/
  | client
  /-- The form object and its hooks, shared by all entities. -/
  | formObject
  /-- The judge of rules, shared by all entities. -/
  | rules
  /-- Change notices, shared by all entities. -/
  | notices
  | list
  | form
  | resource
  | behavior
  | depends
  | realtime
  | actions
  | routes
  deriving DecidableEq, Repr

namespace FileKind

/-- The files that a tree has once. -/
def shared : List FileKind := [client, formObject, rules, notices]

/-- The files that every entity has. -/
def ofEntity : List FileKind :=
  [list, form, resource, behavior, depends, realtime, actions, routes]

/-- The files of a contract, with or without the shared ones. -/
def all (withShared : Bool) : List FileKind := (if withShared then shared else []) ++ ofEntity

/-- The path of a file without its ending. -/
def stem (names : Names) : FileKind → String
  | client => "lib/resource-client"
  | formObject => "lib/behavior-shim"
  | rules => "lib/depends-eval"
  | notices => "lib/realtime"
  | list => "pages/" ++ names.slug ++ "/List"
  | form => "pages/" ++ names.slug ++ "/Form"
  | resource => "pages/" ++ names.slug ++ "/resource"
  | behavior => "pages/" ++ names.slug ++ "/behavior"
  | depends => "pages/" ++ names.slug ++ "/depends"
  | realtime => "pages/" ++ names.slug ++ "/realtime"
  | actions => "actions/" ++ names.slug
  | routes => "router/" ++ names.slug

/-- The path of a file. -/
def path (names : Names) (k : FileKind) : String := filePath names.language (k.stem names)

/-- The regions of a file, in their order. -/
def regions : FileKind → List String
  | client | formObject | rules | notices => ["runtime"]
  | list => ["imports", "columns", "filter-defaults", "list-config"]
  | form => ["imports", "sections", "child-tables", "workflow-buttons", "form-config"]
  | resource => ["resource"]
  | behavior => ["hooks"]
  | depends => ["rules"]
  | realtime => ["subscription"]
  | actions => ["crud-actions", "workflow-actions", "permissions"]
  | routes => ["routes"]

end FileKind

/-! ## Blocks -/

/-- A body under a name. -/
def body (name text : String) : Block := .region name text.toList

/-- Text of the editor of a file. -/
def manual (text : String) : Block := .plain text.toList

/-- A shared file is one region. -/
def sharedBlocks (language : Language) (title template : String) : List Block :=
  [body sharedRegion (sharedHeader title ++ typed language template)]

/-- The list page. -/
def listBlocks (names : Names) (c : Contract) (layout : Layout) : List Block :=
  [manual (pageHeader names "list"), body "imports" listImports, manual "\n",
    body "columns" (constant "COLUMNS" (Json.block (.list (c.columns.map columnSpec)))),
    manual "\n",
    body "filter-defaults" (joinLines
      [constant "FILTER_FIELDS" (Json.block (.list (c.filters.map Filter.toValue))),
        constant "FILTER_DEFAULTS" (Json.block (filterDefaults c))]),
    manual "\n",
    body "list-config" (constant "LIST_CONFIG" (Json.block (listConfig names c layout))),
    manual (listComponent names)]

/-- The form page. -/
def formBlocks (names : Names) (c : Contract) (layout : Layout) : List Block :=
  [manual (pageHeader names "form"), body "imports" (formImports names), manual "\n",
    body "sections" (constant "SECTIONS" (Json.block (.list (c.sections.map sectionSpec)))),
    manual "\n",
    body "child-tables"
      (constant "CHILD_TABLES" (Json.block (c.childTables.toValue childSpec))),
    manual "\n",
    body "workflow-buttons" (constant "WORKFLOW" (Json.block (workflowSpec c))),
    manual "\n",
    body "form-config" (constant "FORM_CONFIG" (Json.block (formConfig names c layout))),
    manual (formComponent names)]

/-- The module that reads and writes records. -/
def resourceBlocks (names : Names) (c : Contract) : List Block :=
  [body "resource" (joinLines
    ["import \x7b createResourceClient \x7d from '../../lib/resource-client';",
      "",
      constant "DOCTYPE" (textLiteral names.entity),
      constant "LIST_FIELDS" (Json.literal (.list (listFields c))),
      "export const resource = createResourceClient(DOCTYPE);"])]

/-- The module of the client behaviour. -/
def behaviorBlocks (names : Names) (c : Contract) : List Block :=
  [body "hooks" (joinLines
    ["import \x7b createFormShim, registerHandlers, trigger, triggerFieldChange \x7d from '../../lib/behavior-shim';",
      "",
      constant "DOCTYPE" (textLiteral names.entity),
      constant "CLIENT_SCRIPTS" (Json.block (.list (c.behaviors.map Behavior.toValue))),
      constant "FORM_EVENTS" (Json.literal (.ofTexts (eventsOf c (·.formEvents)))),
      constant "FIELD_EVENTS" (Json.literal (.ofTexts (eventsOf c (·.fieldEvents)))),
      "",
      typed names.language behaviorTemplate])]

/-- The module of the dependency rules. -/
def dependsBlocks (names : Names) (c : Contract) : List Block :=
  [body "rules" (joinLines
    ["import \x7b fieldState \x7d from '../../lib/depends-eval';",
      "",
      constant "BASE_STATE" (Json.block (baseStates c.fields)),
      "",
      constant "RULES" (Json.block ((rulesOf c.fields).toValue id)),
      "",
      constant "CHILD_BASE_STATE" (Json.block (childStates c)),
      "",
      constant "CHILD_RULES" (Json.block (childRules c)),
      "",
      typed names.language stateTemplate])]

/-- The module of the change notices. -/
def realtimeBlocks (names : Names) (c : Contract) : List Block :=
  [body "subscription" (typed names.language (joinLines
    ["import \x7b useEffect \x7d from 'react';",
      "import \x7b subscribe \x7d from '../../lib/realtime';",
      "",
      constant "TOPIC" (textLiteral c.topic),
      "",
      r#"export function useRealtime(onChange#{: (payload?: any) => void}#) {"#,
      r#"  useEffect(() => subscribe(TOPIC, onChange), [onChange]);"#,
      r#"}"#,
      ""]))]

/-- The module of the actions. -/
def actionsBlocks (names : Names) (c : Contract) : List Block :=
  [body "crud-actions" (crudActions names), manual "\n",
    body "workflow-actions" (workflowActions names c), manual "\n",
    body "permissions" (permissionActions names c)]

/-- The module of the routes. -/
def routesBlocks (names : Names) : List Block :=
  [body "routes" (joinLines
    ["import \x7b lazy \x7d from 'react';",
      "",
      "const List = lazy(() => import('../pages/" ++ names.slug ++ "/List'));",
      "const Form = lazy(() => import('../pages/" ++ names.slug ++ "/Form'));",
      "",
      "export const routes = [",
      routeLine (route names) (names.slug ++ "-list") "List",
      routeLine (route names ++ "/new") (names.slug ++ "-new") "Form",
      routeLine (route names ++ "/:name") (names.slug ++ "-form") "Form",
      "];",
      "",
      "export default routes;"])]

/-- The blocks of a file. -/
def FileKind.blocks (c : Contract) (layout : Layout) (language : Language) (k : FileKind) :
    List Block :=
  let names := Names.ofContract c language
  match k with
  | client => sharedBlocks language "REST access to desk resources." clientTemplate
  | formObject =>
    sharedBlocks language "Desk-compatible form object and event hooks." formObjectTemplate
  | rules => sharedBlocks language "Evaluation of field dependency rules." rulesTemplate
  | notices => sharedBlocks language "Change-notification subscriptions." noticesTemplate
  | list => listBlocks names c layout
  | form => formBlocks names c layout
  | resource => resourceBlocks names c
  | behavior => behaviorBlocks names c
  | depends => dependsBlocks names c
  | realtime => realtimeBlocks names c
  | actions => actionsBlocks names c
  | routes => routesBlocks names

/-- The bodies of a file are its regions. -/
theorem documentNames_blocks (c : Contract) (layout : Layout) (language : Language)
    (k : FileKind) : documentNames (k.blocks c layout language) = k.regions := by
  cases k <;> rfl

/-- No kind of file has two regions of one name. -/
theorem nodup_regions (k : FileKind) : k.regions.Nodup := by cases k <;> decide

/-- Every kind of file has a region. -/
theorem regions_ne_nil (k : FileKind) : k.regions ≠ [] := by cases k <;> decide

/-! ## Every block is proper -/

/-- A body is proper under every name that may stand in a tag. -/
theorem isProper_body {name text : String} (hname : IsTagName name) (h : IsBody text.toList) :
    (body name text).IsProper := ⟨hname, h⟩

/-- Text that is read up to the start of a line stands outside of regions. -/
theorem isProper_manual {text : String} (h : Leads .start text.toList .start) :
    (manual text).IsProper := ⟨isWhole_of_leads h, isPlain_of_leads h⟩

/-- The line break between two regions is proper manual text. -/
theorem isProper_lf : (manual "\n").IsProper := isProper_manual (by decide)

/-! ### Text outside of regions -/

/-- The header of a page is read up to the start of a line, whatever the entity is called, since its
name is written as one line of a comment. -/
theorem leads_pageHeader (names : Names) {kind : String} (h : Leads .inside kind.toList .inside) :
    Leads .start (pageHeader names kind).toList .start := by
  simp only [pageHeader, String.toList_append]
  have hentity : Leads .inside (commentLine names.entity).toList .inside :=
    leads_inside fun c hc => isLineBreak_of_mem_commentLine hc
  have hopening : Leads .start "/**\n * ".toList .inside := by decide
  have hview : Leads .inside " view.\n".toList .start := by decide
  exact ((((hopening.trans hentity).trans (by decide)).trans h).trans hview).trans
    (leads_ofList (by decide))

/-- The name of a component stays inside its line: it is of letters and digits. -/
theorem leads_component (name : String) :
    Leads .inside (Naming.component name).toList .inside :=
  leads_inside fun _ hc => isLineBreak_of_isAlphanum (Naming.mem_component hc)

/-- The component of a list page is read from the start of a line to the start of a line, in both
languages. -/
theorem leads_listComponent (c : Contract) (language : Language) :
    Leads .start (listComponent (.ofContract c language)).toList .start := by
  refine leads_typed _ ?_
  simp only [String.toList_append]
  obtain ⟨hhead, htail⟩ := leads_pageTemplate (listHead, listTail) (by simp [pageTemplates])
  exact (hhead.trans (leads_component c.entity)).trans htail

/-- The component of a form page is read from the start of a line to the start of a line, in both
languages. -/
theorem leads_formComponent (c : Contract) (language : Language) :
    Leads .start (formComponent (.ofContract c language)).toList .start := by
  refine leads_typed _ ?_
  simp only [String.toList_append]
  obtain ⟨hhead, htail⟩ := leads_pageTemplate (formHead, formTail) (by simp [pageTemplates])
  exact (hhead.trans (leads_component c.entity)).trans htail

/-! ### Files -/

/-- The blocks of a shared library are proper as soon as its title and its template are calm. -/
theorem isProper_sharedBlocks (language : Language) {title template : String}
    (htitle : IsCalm title.toList) (htemplate : IsCalm template.toList) :
    ∀ b ∈ sharedBlocks language title template, b.IsProper := by
  have hheader : IsCalm (sharedHeader title).toList :=
    isCalm_append (isCalm_append (by decide) htitle) (isCalm_ofList (by decide))
  have hhead : (sharedHeader title ++ typed language template).toList.head? = some '/' :=
    head?_append (head?_append (head?_append (by decide)))
  simp only [sharedBlocks, List.forall_mem_cons]
  exact ⟨isProper_body (by decide) (isBody_of_isCalm
    (isCalm_append hheader (isCalm_typed language htemplate)) hhead (by decide)), by simp⟩

/-- The imports of a list page are a body: whole lines, and none of them a mark. -/
theorem isBody_listImports : IsBody listImports.toList := by
  refine isBody_joinLines ?_ (head?_ofList _ _) (by decide)
  simp only [List.forall_mem_cons]
  exact ⟨isCalm_ofList (by decide), isCalm_ofList (by decide),
    isCalm_ofList (by decide), isCalm_nil, by simp⟩

/-- The filters of a list page are a body, whatever the filters have in them, since data is printed
without line breaks in its texts. -/
theorem isBody_filters (c : Contract) :
    IsBody (joinLines
      [constant "FILTER_FIELDS" (Json.block (.list (c.filters.map Filter.toValue))),
        constant "FILTER_DEFAULTS" (Json.block (filterDefaults c))]).toList := by
  refine isBody_joinLines ?_ (head?_constant _ _) (by decide)
  simp only [List.forall_mem_cons]
  exact ⟨isCalm_constant (by decide) (isCalm_block _),
    isCalm_constant (by decide) (isCalm_block _), by simp⟩

/-- The blocks of a list page are proper for every contract, layout and language. -/
theorem isProper_listBlocks (c : Contract) (layout : Layout) (language : Language) :
    ∀ b ∈ listBlocks (.ofContract c language) c layout, b.IsProper := by
  simp only [listBlocks, List.forall_mem_cons]
  exact ⟨isProper_manual (leads_pageHeader _ (by decide)),
    isProper_body (by decide) isBody_listImports, isProper_lf,
    isProper_body (by decide) (isBody_constant (by decide) (isCalm_block _)), isProper_lf,
    isProper_body (by decide) (isBody_filters c), isProper_lf,
    isProper_body (by decide) (isBody_constant (by decide) (isCalm_block _)),
    isProper_manual (leads_listComponent c language), by simp⟩

/-- The imports of a form page are a body. -/
theorem isBody_formImports (c : Contract) (language : Language) :
    IsBody (formImports (.ofContract c language)).toList := by
  refine isBody_joinLines ?_ (head?_ofList _ _) (by decide)
  simp only [List.forall_mem_cons]
  exact ⟨isCalm_ofList (by decide), isCalm_ofList (by decide),
    isCalm_ofList (by decide), isCalm_ofList (by decide),
    isCalm_append (isCalm_append (isCalm_ofList (by decide)) (isCalm_slug _))
      (isCalm_ofList (by decide)), isCalm_nil, by simp⟩

/-- The blocks of a form page are proper for every contract, layout and language. -/
theorem isProper_formBlocks (c : Contract) (layout : Layout) (language : Language) :
    ∀ b ∈ formBlocks (.ofContract c language) c layout, b.IsProper := by
  simp only [formBlocks, List.forall_mem_cons]
  exact ⟨isProper_manual (leads_pageHeader _ (by decide)),
    isProper_body (by decide) (isBody_formImports c language), isProper_lf,
    isProper_body (by decide) (isBody_constant (by decide) (isCalm_block _)), isProper_lf,
    isProper_body (by decide) (isBody_constant (by decide) (isCalm_block _)), isProper_lf,
    isProper_body (by decide) (isBody_constant (by decide) (isCalm_block _)), isProper_lf,
    isProper_body (by decide) (isBody_constant (by decide) (isCalm_block _)),
    isProper_manual (leads_formComponent c language), by simp⟩

/-- The blocks of a resource are proper for every contract. -/
theorem isProper_resourceBlocks (names : Names) (c : Contract) :
    ∀ b ∈ resourceBlocks names c, b.IsProper := by
  simp only [resourceBlocks, List.forall_mem_cons]
  refine ⟨isProper_body (by decide) (isBody_joinLines ?_ (head?_ofList _ _) (by decide)), by simp⟩
  simp only [List.forall_mem_cons]
  exact ⟨isCalm_ofList (by decide), isCalm_nil,
    isCalm_constant (by decide) (isCalm_text _), isCalm_constant (by decide) (isCalm_literal _),
    isCalm_ofList (by decide), by simp⟩

/-- The blocks of the hooks are proper. Client scripts stand in them as data and cannot look like
marks. -/
theorem isProper_behaviorBlocks (names : Names) (c : Contract) :
    ∀ b ∈ behaviorBlocks names c, b.IsProper := by
  simp only [behaviorBlocks, List.forall_mem_cons]
  refine ⟨isProper_body (by decide) (isBody_joinLines ?_ (head?_ofList _ _) (by decide)), by simp⟩
  simp only [List.forall_mem_cons]
  exact ⟨isCalm_ofList (by decide), isCalm_nil,
    isCalm_constant (by decide) (isCalm_text _), isCalm_constant (by decide) (isCalm_block _),
    isCalm_constant (by decide) (isCalm_literal _),
    isCalm_constant (by decide) (isCalm_literal _), isCalm_nil,
    isCalm_typed _ (isCalm_codeTemplate _ (by simp [codeTemplates])), by simp⟩

/-- The blocks of the rules are proper for every contract. -/
theorem isProper_dependsBlocks (names : Names) (c : Contract) :
    ∀ b ∈ dependsBlocks names c, b.IsProper := by
  simp only [dependsBlocks, List.forall_mem_cons]
  refine ⟨isProper_body (by decide) (isBody_joinLines ?_ (head?_ofList _ _) (by decide)), by simp⟩
  simp only [List.forall_mem_cons]
  exact ⟨isCalm_ofList (by decide), isCalm_nil,
    isCalm_constant (by decide) (isCalm_block _), isCalm_nil,
    isCalm_constant (by decide) (isCalm_block _), isCalm_nil,
    isCalm_constant (by decide) (isCalm_block _), isCalm_nil,
    isCalm_constant (by decide) (isCalm_block _), isCalm_nil,
    isCalm_typed _ (isCalm_codeTemplate _ (by simp [codeTemplates])), by simp⟩

/-- The blocks of the subscription are proper for every contract. -/
theorem isProper_realtimeBlocks (names : Names) (c : Contract) :
    ∀ b ∈ realtimeBlocks names c, b.IsProper := by
  simp only [realtimeBlocks, List.forall_mem_cons]
  refine ⟨isProper_body (by decide) (isBody_of_isCalm (isCalm_typed _ (isCalm_joinLines ?_))
    (head?_typed _ (head?_joinLines (head?_ofList _ _)) (by decide)) (by decide)), by simp⟩
  simp only [List.forall_mem_cons]
  exact ⟨isCalm_ofList (by decide), isCalm_ofList (by decide), isCalm_nil,
    isCalm_constant (by decide) (isCalm_text _), isCalm_nil, isCalm_ofList (by decide),
    isCalm_ofList (by decide), by decide, isCalm_nil, by simp⟩

/-- The actions on documents are a body. -/
theorem isBody_crudActions (c : Contract) (language : Language) :
    IsBody (crudActions (.ofContract c language)).toList := by
  refine isBody_of_isCalm (isCalm_typed _ ?_)
    (head?_typed _ (head?_append (head?_append (head?_append (head?_ofList _ _)))) (by decide))
    (by decide)
  exact isCalm_append (isCalm_around_slug _ (by decide) (by decide))
    (isCalm_codeTemplate _ (by simp [codeTemplates]))

/-- The actions of a workflow are a body. What stands in front of a function is one line, whatever
the transition is called. -/
theorem isBody_workflowActions {c : Contract} (h : ∀ t ∈ c.transitions, t.IsNamed)
    (names : Names) : IsBody (workflowActions names c).toList := by
  have htransitions : ∀ l ∈ (bindings c.transitions).flatMap (transitionLines names),
      IsPlain (l.toList ++ ['\n']) := by
    intro l hl
    obtain ⟨b, hb, hl⟩ := List.mem_flatMap.1 hl
    obtain ⟨hname, ht⟩ := isCalm_of_mem_bindings hb
    exact isPlain_transitionLines names hname (h _ ht) l hl
  unfold workflowActions
  simp only
  rw [List.cons_append, List.cons_append]
  refine isBody_of_isPlain (isPlain_joinLines ?_) (head?_joinLines (head?_ofList _ _)) (by decide)
  -- Line by line: what is imported, the constants, the functions and what stands behind them.
  simp only [List.forall_mem_cons, List.forall_mem_append]
  refine ⟨(isCalm_ofList (by decide)).isPlain, ⟨⟨isCalm_nil.isPlain,
    (isCalm_constant (isCalm_ofList (by decide)) (isCalm_literal _)).isPlain,
    (isCalm_constant (by decide) (isCalm_block _)).isPlain, isCalm_nil.isPlain, by simp⟩,
    htransitions⟩, ?_⟩
  exact ⟨(isCalm_typed _ (isCalm_ofList (by decide))).isPlain,
    (isCalm_ofList (by decide)).isPlain, (isCalm_ofList (by decide)).isPlain,
    (isCalm_ofList (by decide)).isPlain, (isCalm_ofList (by decide)).isPlain,
    isCalm_nil.isPlain, (isCalm_typed _ (isCalm_ofList (by decide))).isPlain,
    (isCalm_append (isCalm_append (isCalm_ofList (by decide)) (isCalm_text _))
      (isCalm_ofList (by decide))).isPlain, (isCalm_ofList (by decide)).isPlain, by simp⟩

/-- The permissions are a body, whatever the roles are called. -/
theorem isBody_permissionActions (names : Names) (c : Contract) :
    IsBody (permissionActions names c).toList := by
  refine isBody_of_isCalm (isCalm_declarePermissions _ (isCalm_typed _ ?_))
    (head?_declarePermissions _ (head?_typed _ (head?_append (head?_append (head?_ofList _ _)))
      (by decide))) (by decide)
  exact isCalm_append (isCalm_append (isCalm_ofList (by decide)) (isCalm_block _))
    (isCalm_codeTemplate _ (by simp [codeTemplates]))

/-- The blocks of the actions are proper when the transitions have names. -/
theorem isProper_actionsBlocks {c : Contract} (h : ∀ t ∈ c.transitions, t.IsNamed)
    (language : Language) : ∀ b ∈ actionsBlocks (.ofContract c language) c, b.IsProper := by
  simp only [actionsBlocks, List.forall_mem_cons]
  exact ⟨isProper_body (by decide) (isBody_crudActions c language), isProper_lf,
    isProper_body (by decide) (isBody_workflowActions h _), isProper_lf,
    isProper_body (by decide) (isBody_permissionActions _ c), by simp⟩

/-- The line of a route is calm as soon as the name of the component in it is. -/
theorem isCalm_routeLine (path name : String) {component : String}
    (h : IsCalm component.toList) : IsCalm (routeLine path name component).toList :=
  isCalm_append (isCalm_append (isCalm_append (isCalm_append (isCalm_append (isCalm_append
    (isCalm_ofList (by decide)) (isCalm_text _)) (isCalm_ofList (by decide))) (isCalm_text _))
    (isCalm_ofList (by decide))) h) (isCalm_ofList (by decide))

/-- The blocks of the routes are proper for every contract and language. -/
theorem isProper_routesBlocks (c : Contract) (language : Language) :
    ∀ b ∈ routesBlocks (.ofContract c language), b.IsProper := by
  simp only [routesBlocks, List.forall_mem_cons]
  refine ⟨isProper_body (by decide) (isBody_joinLines ?_ (head?_ofList _ _) (by decide)), by simp⟩
  simp only [List.forall_mem_cons]
  exact ⟨isCalm_ofList (by decide), isCalm_nil,
    isCalm_around_slug _ (by decide) (by decide),
    isCalm_around_slug _ (by decide) (by decide), isCalm_nil,
    isCalm_ofList (by decide), isCalm_routeLine _ _ (by decide), isCalm_routeLine _ _ (by decide),
    isCalm_routeLine _ _ (by decide), by decide, isCalm_nil, isCalm_ofList (by decide), by simp⟩

/-- **The blocks of every file are proper**, when the transitions of the contract have names. There
is one case for each kind of file, and each goes through its bodies line by line. -/
theorem isProper_blocks {c : Contract} (h : ∀ t ∈ c.transitions, t.IsNamed) (layout : Layout)
    (language : Language) (k : FileKind) : ∀ b ∈ k.blocks c layout language, b.IsProper := by
  have htemplate : ∀ t ∈ codeTemplates, IsCalm t.toList := isCalm_codeTemplate
  simp only [codeTemplates, List.forall_mem_cons] at htemplate
  obtain ⟨-, -, -, -, hclient, hformObject, hrules, hnotices, -⟩ := htemplate
  cases k with
  | client => exact isProper_sharedBlocks language (isCalm_ofList (by decide)) hclient
  | formObject => exact isProper_sharedBlocks language (isCalm_ofList (by decide)) hformObject
  | rules => exact isProper_sharedBlocks language (isCalm_ofList (by decide)) hrules
  | notices => exact isProper_sharedBlocks language (isCalm_ofList (by decide)) hnotices
  | list => exact isProper_listBlocks c layout language
  | form => exact isProper_formBlocks c layout language
  | resource => exact isProper_resourceBlocks _ c
  | behavior => exact isProper_behaviorBlocks _ c
  | depends => exact isProper_dependsBlocks _ c
  | realtime => exact isProper_realtimeBlocks _ c
  | actions => exact isProper_actionsBlocks h language
  | routes => exact isProper_routesBlocks c language

/-! ## Files -/

/-- A file stands at the path, its text is that of the blocks, and it owns their bodies. -/
structure IsDocument (bs : List Block) (path : String) (a : Artifact) : Prop where
  path : a.path = path
  content : a.content.toList = documentText bs
  owned : a.owned = documentNames bs

/-- A file that owns the regions of its text is a document when its blocks are proper. -/
theorem isDocument_ofContent {bs : List Block} (h : ∀ b ∈ bs, b.IsProper)
    (hnames : (documentNames bs).Nodup) {content : String}
    (hcontent : content.toList = documentText bs)
    (path : String) (warnings : List ViewWarning) :
    IsDocument bs path (.ofContent path content warnings) := by
  refine ⟨rfl, hcontent, ?_⟩
  have hscan := (scan_document h hnames).2.2
  rw [← hcontent] at hscan
  exact hscan

end FormScaffold.View
