import FormScaffold.Proofs.Contract.Schemas
import FormScaffold.Proofs.Expression.Literals
import FormScaffold.Proofs.Region.Remerging
import FormScaffold.Proofs.View.Granting
import FormScaffold.Proofs.View.Rendering

/-! # Data in generated files

Generated files declare constants that hold data of the contract. A reader of the files gets the
data back, with one exception: the roles of permissions go through passes that are meant for the
code around them.

* **`FileKind.constants`** — the constants of each kind of file, with the data they stand for;
* `Holds` — the body of a region declares constants;
* **`declared?_render_iff`** — in the files of every contract, every constant but the permissions
  is read back, and these just when no pass finds anything in their roles. -/

namespace FormScaffold.View

open Json Region

/-! ## Constants -/

/-- The base states of fields under their names. -/
def statesByName (fields : List Field) : Keyed Value := fields.map fun f => (f.name, baseState f)

/-- The child tables some field of which has rules. -/
def ruledTables (c : Contract) : Keyed ChildTable :=
  List.filter (fun p => !(ruledFields p.2.fields).isEmpty) c.childTables

/-- The defaults of the filters that state one, under their names. -/
def filterDefaultsByName (c : Contract) : Keyed Value :=
  (c.filters.filter fun f => isStated f.default).map fun f => (f.name, f.default)

/-- The field of the workflow that holds the state, or nothing. -/
def workflowField (c : Contract) : Value := .ofText? (c.workflow.map (·.stateField))

/-- The transitions of the workflow as data. -/
def transitionData (c : Contract) : Value := .list (c.transitions.map Transition.toValue)

/-- **The constants that a file declares**, by their regions, with the data of the contract that
they stand for. -/
def FileKind.constants (c : Contract) (layout : Layout) (language : Language) (k : FileKind) :
    List (String × List (String × Value)) :=
  let names := Names.ofContract c language
  match k with
  | client | formObject | rules | notices | routes => []
  | list =>
    [("columns", [("COLUMNS", .list (c.columns.map columnSpec))]),
      ("filter-defaults", [("FILTER_FIELDS", .list (c.filters.map Filter.toValue)),
        ("FILTER_DEFAULTS", (filterDefaultsByName c).toValue id)]),
      ("list-config", [("LIST_CONFIG", listConfig names c layout)])]
  | form =>
    [("sections", [("SECTIONS", .list (c.sections.map sectionSpec))]),
      ("child-tables", [("CHILD_TABLES", c.childTables.toValue childSpec)]),
      ("workflow-buttons", [("WORKFLOW", .record [("stateField", workflowField c),
        ("actions", transitionData c)])]),
      ("form-config", [("FORM_CONFIG", formConfig names c layout)])]
  | resource =>
    [("resource", [("DOCTYPE", .text c.entity), ("LIST_FIELDS", .list (listFields c))])]
  | behavior =>
    [("hooks", [("DOCTYPE", .text c.entity),
      ("CLIENT_SCRIPTS", .list (c.behaviors.map Behavior.toValue)),
      ("FORM_EVENTS", .ofTexts (eventsOf c (·.formEvents))),
      ("FIELD_EVENTS", .ofTexts (eventsOf c (·.fieldEvents)))])]
  | depends =>
    [("rules", [("BASE_STATE", (statesByName c.fields).toValue id),
      ("RULES", Keyed.toValue (ruledFields c.fields) id),
      ("CHILD_BASE_STATE", c.childTables.toValue fun t => (statesByName t.fields).toValue id),
      ("CHILD_RULES", (ruledTables c).toValue fun t =>
        Keyed.toValue (ruledFields t.fields) id)])]
  | realtime => [("subscription", [("TOPIC", .text c.topic)])]
  | actions =>
    [("workflow-actions", [("WORKFLOW_STATE_FIELD", workflowField c),
        ("WORKFLOW_ACTIONS", transitionData c)]),
      ("permissions", [("PERMISSIONS", c.permissions.toValue Grants.toValue)])]

/-! ## Data is well-formed -/

/-- A keyed list is well-formed when its keys are names, no name comes twice, and what stands under
them is well-formed. -/
theorem isWellFormed_toValue {α : Type} {m : Keyed α} (h : AreNames m.keys) {f : α → Value}
    (hf : ∀ p ∈ m, IsWellFormed (f p.2)) : IsWellFormed (m.toValue f) := by
  have hkeys : (m.keys.map keyText).Nodup := h.nodup_keyText
  rw [Keyed.toValue, isWellFormed_record, List.map_map]
  rw [Keyed.keys, List.map_map] at hkeys
  refine ⟨hkeys, fun e he => ?_⟩
  obtain ⟨p, hp, rfl⟩ := List.mem_map.1 he
  exact hf p hp

/-- A text that may be missing is well-formed: the text, or null. -/
@[simp] theorem isWellFormed_ofText? (s : Option String) : IsWellFormed (.ofText? s) := by
  cases s <;> trivial

/-- A count is well-formed, since it is a whole number. -/
@[simp] theorem isWellFormed_ofNat (n : Nat) : IsWellFormed (.ofNat n) := trivial

/-- A list of texts is well-formed whatever the texts are. -/
@[simp] theorem isWellFormed_ofTexts (ss : List String) : IsWellFormed (.ofTexts ss) := by
  simp [Value.ofTexts]

/-- The base state of a field is well-formed: three flags under names of the program's own. -/
theorem isWellFormed_baseState (f : Field) : IsWellFormed (baseState f) := by
  simp [baseState]

/-- A transition is well-formed. All of it is text that was read from the workflow. -/
theorem isWellFormed_transition (t : Transition) : IsWellFormed t.toValue := by
  simp [Transition.toValue]

/-- A client script is well-formed, with the events that were found in it. -/
theorem isWellFormed_behavior (b : Behavior) : IsWellFormed b.toValue := by
  simp [Behavior.toValue]

/-- Names are well-formed, one by one. -/
theorem AreNames.isWellFormed {vs : List Value} (h : AreNames vs) {v : Value} (hv : v ∈ vs) :
    IsWellFormed v := by
  obtain ⟨s, rfl⟩ := h.text v hv
  trivial

/-- The specification of a field is well-formed as soon as its name is. All else in it is text, a
flag or the options that were read. -/
theorem isWellFormed_fieldSpec {f : Field} (h : IsWellFormed f.name) (control : String) :
    IsWellFormed (fieldSpec f control) := by
  cases hdescription : f.description <;> simp [fieldSpec, hdescription, h]

/-- The rules of a field stand under different keys. -/
theorem isWellFormed_fieldRules (f : Field) : IsWellFormed (.record (fieldRules f)) := by
  have hkeys : (f.dependencies.map (·.1.key)).Nodup := by
    unfold Field.dependencies
    generalize f.conditions = conditions
    obtain ⟨shown, mandatory, readOnly⟩ := conditions
    cases shown <;> cases mandatory <;> cases readOnly <;>
      simp [Dependency.all, Conditions.get, Dependency.key]
  rw [isWellFormed_record, fieldRules, List.map_map]
  refine ⟨hkeys, fun e he => ?_⟩
  obtain ⟨d, -, rfl⟩ := List.mem_map.1 he
  exact Expression.isWellFormed_of_parseText d.2.parseText_text

/-- The fields that have rules keep their names. -/
theorem sublist_keys_ruledFields (fields : List Field) :
    List.Sublist (Keyed.keys (ruledFields fields)) (fields.map (·.name)) := by
  unfold Keyed.keys ruledFields
  induction fields with
  | nil => exact .slnil
  | cons f fields ih =>
    rw [List.map_cons, List.map_cons, List.filterMap_cons]
    split
    · exact ih.cons _
    · rename_i p hp
      split at hp
      · exact absurd hp (by simp)
      · rw [← Option.some.inj hp]
        exact ih.cons_cons _

/-- The rules of fields are well-formed when the names of the fields may be keys. -/
theorem isWellFormed_ruledFields {fields : List Field} (h : AreNames (fields.map (·.name))) :
    IsWellFormed (Keyed.toValue (ruledFields fields) id) := by
  refine isWellFormed_toValue (h.sublist (sublist_keys_ruledFields fields)) fun p hp => ?_
  obtain ⟨q, hq, hp⟩ := List.mem_filterMap.1 hp
  obtain ⟨f, -, rfl⟩ := List.mem_map.1 hq
  split at hp
  · exact absurd hp (by simp)
  · rw [← Option.some.inj hp]
    exact isWellFormed_fieldRules f

/-- The base states of fields are well-formed when the names of the fields may be keys. -/
theorem isWellFormed_statesByName {fields : List Field} (h : AreNames (fields.map (·.name))) :
    IsWellFormed ((statesByName fields).toValue id) := by
  refine isWellFormed_toValue ?_ fun p hp => ?_
  · rwa [statesByName, Keyed.keys, List.map_map]
  · obtain ⟨f, -, rfl⟩ := List.mem_map.1 hp
    exact isWellFormed_baseState f

section

variable {c : Contract} (hc : c.IsPlain)
include hc

/-- The defaults of filters are well-formed: the filters of a built contract are fields of it, with
names that may be keys. -/
theorem isWellFormed_filterDefaultsByName : IsWellFormed ((filterDefaultsByName c).toValue id) := by
  refine isWellFormed_toValue (hc.filters.sublist ?_) fun p hp => ?_
  · rw [filterDefaultsByName, Keyed.keys, List.map_map]
    exact List.filter_sublist.map _
  · obtain ⟨f, hf, rfl⟩ := List.mem_map.1 hp
    exact hc.filterDefaults f (List.mem_filter.1 hf).1

/-- The defaults of the form, under the names of their fields. -/
theorem isWellFormed_formDefaults : IsWellFormed (formDefaults c) := by
  have hnames : AreNames (((c.fields.filter fun f => isStated f.default &&
      !tableTypes.contains f.type).map fun f => (f.name, f.default)).map (·.1)) := by
    rw [List.map_map]
    exact hc.fields.sublist (List.filter_sublist.map _)
  rw [formDefaults, Keyed.ofList_eq_self hnames]
  refine isWellFormed_toValue hnames fun p hp => ?_
  obtain ⟨f, hf, rfl⟩ := List.mem_map.1 hp
  exact hc.defaults f (List.mem_filter.1 hf).1

/-- The sections of a built contract are well-formed, columns and fields included. -/
theorem isWellFormed_sectionSpec {s : FormSection} (hs : s ∈ c.sections) :
    IsWellFormed (sectionSpec s) := by
  have hfields : ∀ f ∈ s.fields, IsWellFormed (fieldSpec f (control f.type)) := fun f hf =>
    isWellFormed_fieldSpec (AreNames.isWellFormed hc.fields
      (List.mem_map_of_mem (List.mem_flatMap.2 ⟨s, hs, hf⟩))) _
  simpa [sectionSpec] using hfields

/-- The child tables of a built contract are well-formed, under the names of their fields. -/
theorem isWellFormed_childTables : IsWellFormed (c.childTables.toValue childSpec) := by
  refine isWellFormed_toValue hc.tables fun p hp => ?_
  have hfields : ∀ f ∈ p.2.fields, IsWellFormed (fieldSpec f (childControl f.type)) := fun f hf =>
    isWellFormed_fieldSpec (AreNames.isWellFormed (hc.tableFields p hp) (List.mem_map_of_mem hf)) _
  simpa [childSpec] using hfields

/-- The columns of a built contract are well-formed. -/
theorem isWellFormed_columnSpec {col : Column} (h : col ∈ c.columns) :
    IsWellFormed (columnSpec col) := by
  obtain ⟨s, hs⟩ := hc.columns col h
  simp [columnSpec, hs]

/-- The filters of a built contract are well-formed, also with the default that a filter states. -/
theorem isWellFormed_filter {f : Filter} (h : f ∈ c.filters) : IsWellFormed f.toValue := by
  have hname := AreNames.isWellFormed hc.filters (List.mem_map_of_mem h)
  simp [Filter.toValue, hname, hc.filterDefaults f h]

/-- The names of the fields that a list fetches are well-formed. -/
theorem isWellFormed_of_mem_listFields {v : Value} (h : v ∈ listFields c) : IsWellFormed v := by
  rcases List.mem_cons.1 h with rfl | h
  · trivial
  · obtain ⟨col, hcol, rfl⟩ := List.mem_map.1 (List.mem_filter.1 h).1
    obtain ⟨s, hs⟩ := hc.columns col hcol
    simp [hs]

/-! ### The constants of the files -/

omit hc in
/-- The transitions of a workflow are well-formed as a whole. -/
theorem isWellFormed_transitionData (c : Contract) : IsWellFormed (transitionData c) := by
  simp [transitionData, isWellFormed_transition]

omit hc in
/-- The configuration of a list page is well-formed in every layout and language. -/
theorem isWellFormed_listConfig (c : Contract) (layout : Layout) (language : Language) :
    IsWellFormed (listConfig (.ofContract c language) c layout) := by
  simp [listConfig]

/-- The configuration of a form page is well-formed in every layout and language. -/
theorem isWellFormed_formConfig (layout : Layout) (language : Language) :
    IsWellFormed (formConfig (.ofContract c language) c layout) := by
  simp [formConfig, isWellFormed_formDefaults hc]

omit hc in
/-- The workflow of a form page is well-formed: the field that holds the state, and the transitions.
-/
theorem isWellFormed_workflow (c : Contract) :
    IsWellFormed (.record [("stateField", workflowField c), ("actions", transitionData c)]) := by
  simp [workflowField, isWellFormed_transitionData]

/-- The base states of the fields of child tables are well-formed, table by table. -/
theorem isWellFormed_childStates : IsWellFormed (c.childTables.toValue fun t =>
    (statesByName t.fields).toValue id) :=
  isWellFormed_toValue hc.tables fun p hp => isWellFormed_statesByName (hc.tableFields p hp)

/-- The rules of the fields of child tables are well-formed. Tables without rules are left out. -/
theorem isWellFormed_childRules : IsWellFormed ((ruledTables c).toValue fun t =>
    Keyed.toValue (ruledFields t.fields) id) :=
  isWellFormed_toValue (hc.tables.sublist (List.filter_sublist.map _)) fun p hp =>
    isWellFormed_ruledFields (hc.tableFields p (List.mem_filter.1 hp).1)

/-- The permissions are well-formed, since no role comes twice in a built contract. -/
theorem isWellFormed_permissions : IsWellFormed (c.permissions.toValue Grants.toValue) :=
  isWellFormed_toValue hc.roles fun p _ => isWellFormed_grants p.2

/-- **The data of every constant is well-formed.** So each of them is read back from its literal as
it is. -/
theorem isWellFormed_constants (layout : Layout) (language : Language) (k : FileKind) :
    ∀ r ∈ k.constants c layout language, ∀ d ∈ r.2, IsWellFormed d.2 := by
  -- Lists are well-formed when all their elements are.
  have hlist : ∀ {α : Type} {xs : List α} {f : α → Value}, (∀ x ∈ xs, IsWellFormed (f x)) →
      IsWellFormed (.list (xs.map f)) := by
    intro α xs f h
    simpa using h
  cases k with
  | client | formObject | rules | notices | routes => simp [FileKind.constants]
  | list =>
    simp only [FileKind.constants, List.forall_mem_cons]
    exact ⟨⟨hlist fun _ => isWellFormed_columnSpec hc, by simp⟩,
      ⟨hlist fun _ => isWellFormed_filter hc, isWellFormed_filterDefaultsByName hc, by simp⟩,
      ⟨isWellFormed_listConfig c layout language, by simp⟩, by simp⟩
  | form =>
    simp only [FileKind.constants, List.forall_mem_cons]
    exact ⟨⟨hlist fun _ => isWellFormed_sectionSpec hc, by simp⟩,
      ⟨isWellFormed_childTables hc, by simp⟩, ⟨isWellFormed_workflow c, by simp⟩,
      ⟨isWellFormed_formConfig hc layout language, by simp⟩, by simp⟩
  | resource =>
    have hfields : IsWellFormed (.list (listFields c)) := by
      simpa using fun v => isWellFormed_of_mem_listFields hc
    simp only [FileKind.constants, List.forall_mem_cons]
    exact ⟨⟨trivial, hfields, by simp⟩, by simp⟩
  | behavior =>
    simp only [FileKind.constants, List.forall_mem_cons]
    exact ⟨⟨trivial, hlist fun b _ => isWellFormed_behavior b, isWellFormed_ofTexts _,
      isWellFormed_ofTexts _, by simp⟩, by simp⟩
  | depends =>
    simp only [FileKind.constants, List.forall_mem_cons]
    exact ⟨⟨isWellFormed_statesByName hc.fields, isWellFormed_ruledFields hc.fields,
      isWellFormed_childStates hc, isWellFormed_childRules hc, by simp⟩, by simp⟩
  | realtime =>
    simp only [FileKind.constants, List.forall_mem_cons]
    exact ⟨⟨trivial, by simp⟩, by simp⟩
  | actions =>
    simp only [FileKind.constants, List.forall_mem_cons]
    exact ⟨⟨isWellFormed_ofText? _, isWellFormed_transitionData c, by simp⟩,
      ⟨isWellFormed_permissions hc, by simp⟩, by simp⟩

end

/-! ## Constants are declared -/

/-- The first lines of the body of the region declare the constants. -/
def Holds (bs : List Block) (r : String × List (String × Value)) : Prop :=
  ∃ n lines, body r.1 (joinLines lines) ∈ bs ∧ Declares (lines.take n) r.2

/-- A body that is one declaration. -/
theorem holds_of_constant {bs : List Block} {region name literal : String} {v : Value}
    (hmem : body region (constant name literal) ∈ bs) (hname : IsConstantName name)
    (hliteral : IsLiteralOf v literal) : Holds bs (region, [(name, v)]) := by
  refine ⟨1, [constant name literal], ?_, .constant hname hliteral (by simp) .nil⟩
  rwa [joinLines_singleton]

/-- A line that starts with another letter declares nothing. -/
theorem passes_ofList {c : Char} {cs : List Char} (hc : c ≠ 'e') (hfits : (c :: cs).IsChain Fits)
    (name : String) : Passes name (String.ofList (c :: cs)).toList := by
  rw [String.toList_ofList]
  exact passes_of_head name hfits hc

/-- The literal that a template writes for a text is the one that is read as this text. -/
theorem isLiteralOf_text (s : String) : IsLiteralOf (.text s) (textLiteral s) :=
  isLiteralOf_literal _

/-- The resource declares the entity and the fields that its lists fetch. -/
theorem holds_resource (names : Names) (c : Contract) :
    Holds (resourceBlocks names c) ("resource", [("DOCTYPE", .text names.entity),
      ("LIST_FIELDS", .list (listFields c))]) := by
  refine ⟨4, _, List.mem_singleton.2 rfl, ?_⟩
  refine .other (passes_ofList (by decide) (by decide +kernel)) <| .other passes_nil ?_
  exact .constant (by decide) (isLiteralOf_text _) (by simp) <|
    .constant (by decide) (isLiteralOf_literal _) (by simp) .nil

/-- The hooks declare the entity, the client scripts and the events that occur in them. -/
theorem holds_behavior (names : Names) (c : Contract) :
    Holds (behaviorBlocks names c) ("hooks", [("DOCTYPE", .text names.entity),
      ("CLIENT_SCRIPTS", .list (c.behaviors.map Behavior.toValue)),
      ("FORM_EVENTS", .ofTexts (eventsOf c (·.formEvents))),
      ("FIELD_EVENTS", .ofTexts (eventsOf c (·.fieldEvents)))]) := by
  refine ⟨6, _, List.mem_singleton.2 rfl, ?_⟩
  refine .other (passes_ofList (by decide) (by decide +kernel)) <| .other passes_nil ?_
  exact .constant (by decide) (isLiteralOf_text _) (by simp) <|
    .constant (by decide) (isLiteralOf_block _) (by simp) <|
    .constant (by decide) (isLiteralOf_literal _) (by simp) <|
    .constant (by decide) (isLiteralOf_literal _) (by simp) .nil

/-- Under different names states and rules are written as they come. -/
theorem baseStates_eq {fields : List Field} (h : AreNames (fields.map (·.name))) :
    baseStates fields = (statesByName fields).toValue id := by
  rw [baseStates, Keyed.ofList_eq_self (by rwa [List.map_map])]
  rfl

/-- Rules that are collected one by one are those of the fields with rules, since no key is set
twice. -/
theorem rulesOf_eq {fields : List Field} (h : AreNames (fields.map (·.name))) :
    rulesOf fields = ruledFields fields :=
  Keyed.ofList_eq_self (h.sublist (sublist_keys_ruledFields fields))

/-- Things under keys are the same data when they are the same for what is there. -/
theorem toValue_congr {α : Type} {m : Keyed α} {f g : α → Value} (h : ∀ p ∈ m, f p.2 = g p.2) :
    m.toValue f = m.toValue g := by
  rw [Keyed.toValue, Keyed.toValue]
  exact congrArg _ (List.map_congr_left fun p hp => by rw [h p hp])

section

variable {c : Contract} (hc : c.IsPlain)
include hc

/-- The base states of child tables are collected under the names of the tables, in their order. -/
theorem childStates_eq :
    childStates c = c.childTables.toValue fun t => (statesByName t.fields).toValue id :=
  toValue_congr fun p hp => baseStates_eq (hc.tableFields p hp)

/-- The rules of child tables are collected under the names of the tables that have some. -/
theorem childRules_eq : childRules c = (ruledTables c).toValue fun t =>
    Keyed.toValue (ruledFields t.fields) id := by
  have hfilter : List.filter (fun p => !(rulesOf p.2.fields).isEmpty) c.childTables =
      ruledTables c :=
    List.filter_congr fun p hp => by rw [rulesOf_eq (hc.tableFields p hp)]
  rw [childRules, hfilter]
  refine toValue_congr fun p hp => ?_
  rw [rulesOf_eq (hc.tableFields p (List.mem_filter.1 hp).1)]

/-- The defaults of filters are collected under the names of the filters that state one. -/
theorem filterDefaults_eq : filterDefaults c = (filterDefaultsByName c).toValue id := by
  rw [filterDefaults, Keyed.ofList_eq_self ?_]
  · rfl
  · rw [List.map_map]
    exact hc.filters.sublist (List.filter_sublist.map _)

/-- The rules declare the base states and the rules of the fields, and those of the child tables. -/
theorem holds_depends (names : Names) :
    Holds (dependsBlocks names c) ("rules", [("BASE_STATE", (statesByName c.fields).toValue id),
      ("RULES", Keyed.toValue (ruledFields c.fields) id),
      ("CHILD_BASE_STATE", c.childTables.toValue fun t => (statesByName t.fields).toValue id),
      ("CHILD_RULES", (ruledTables c).toValue fun t =>
        Keyed.toValue (ruledFields t.fields) id)]) := by
  rw [← baseStates_eq hc.fields, ← rulesOf_eq hc.fields, ← childStates_eq hc, ← childRules_eq hc]
  refine ⟨10, _, List.mem_singleton.2 rfl, ?_⟩
  refine .other (passes_ofList (by decide) (by decide)) <| .other passes_nil ?_
  exact .constant (by decide) (isLiteralOf_block _) (by simp) <| .other passes_nil <|
    .constant (by decide) (isLiteralOf_block _) (by simp) <| .other passes_nil <|
    .constant (by decide) (isLiteralOf_block _) (by simp) <| .other passes_nil <|
    .constant (by decide) (isLiteralOf_block _) (by simp) <| .other passes_nil .nil

/-- A list page declares its columns, its filters with their defaults, and its configuration. -/
theorem holds_list (names : Names) (layout : Layout) :
    Holds (listBlocks names c layout) ("columns", [("COLUMNS", .list (c.columns.map columnSpec))]) ∧
      Holds (listBlocks names c layout) ("filter-defaults",
        [("FILTER_FIELDS", .list (c.filters.map Filter.toValue)),
          ("FILTER_DEFAULTS", (filterDefaultsByName c).toValue id)]) ∧
      Holds (listBlocks names c layout)
        ("list-config", [("LIST_CONFIG", listConfig names c layout)]) := by
  refine ⟨holds_of_constant (by simp [listBlocks]) (by decide) (isLiteralOf_block _), ?_,
    holds_of_constant (by simp [listBlocks]) (by decide) (isLiteralOf_block _)⟩
  rw [← filterDefaults_eq hc]
  refine ⟨2, _, .tail _ (.tail _ (.tail _ (.tail _ (.tail _ (.head _))))), ?_⟩
  exact .constant (by decide) (isLiteralOf_block _) (by simp) <|
    .constant (by decide) (isLiteralOf_block _) (by simp) .nil

end

/-- Every transition gets a function, whatever names are taken already. -/
theorem length_bindingNames (used : List String) (ts : List Transition) :
    (bindingNames used ts).length = ts.length := by
  induction ts generalizing used with
  | nil => rfl
  | cons t ts ih => rw [bindingNames, List.length_cons, List.length_cons, ih]

/-- Functions are bound to the transitions in their order. -/
theorem map_snd_bindings (ts : List Transition) : (bindings ts).map (·.2) = ts :=
  List.map_snd_zip (length_bindingNames [] ts).ge

/-- Naming the functions of transitions changes neither the transitions nor their order. -/
theorem transitionData_eq (c : Contract) :
    .list ((bindings c.transitions).map (·.2.toValue)) = transitionData c := by
  have hmap := congrArg (List.map Transition.toValue) (map_snd_bindings c.transitions)
  rw [List.map_map] at hmap
  rw [transitionData, ← hmap]
  rfl

/-- A form page declares its sections, its child tables, its workflow and its configuration. -/
theorem holds_form (names : Names) (c : Contract) (layout : Layout) :
    ∀ r ∈ [("sections", [("SECTIONS", .list (c.sections.map sectionSpec))]),
      ("child-tables", [("CHILD_TABLES", c.childTables.toValue childSpec)]),
      ("workflow-buttons", [("WORKFLOW", .record [("stateField", workflowField c),
        ("actions", transitionData c)])]),
      ("form-config", [("FORM_CONFIG", formConfig names c layout)])],
      Holds (formBlocks names c layout) r := by
  rw [← transitionData_eq]
  simp only [List.forall_mem_cons]
  exact ⟨holds_of_constant (by simp [formBlocks]) (by decide) (isLiteralOf_block _),
    holds_of_constant (by simp [formBlocks]) (by decide) (isLiteralOf_block _),
    holds_of_constant (by simp [formBlocks, workflowSpec, workflowField]) (by decide)
      (isLiteralOf_block _),
    holds_of_constant (by simp [formBlocks]) (by decide) (isLiteralOf_block _), by simp⟩

/-- The actions declare the field that holds the state and the transitions of the workflow. -/
theorem holds_workflow (names : Names) (c : Contract) :
    Holds (actionsBlocks names c) ("workflow-actions", [("WORKFLOW_STATE_FIELD", workflowField c),
      ("WORKFLOW_ACTIONS", transitionData c)]) := by
  rw [← transitionData_eq]
  refine ⟨4, _, .tail _ (.tail _ (.head _)), ?_⟩
  refine .other (passes_ofList (by decide) (by decide)) <| .other passes_nil ?_
  exact .constant (by decide) (isLiteralOf_literal _) (by simp) <|
    .constant (by decide) (isLiteralOf_block _) (by simp) .nil

/-- Lines without marks are left by the settling of annotations. -/
theorem exists_typed_joinLines (language : Language) {front : List String}
    (h : ∀ l ∈ front, ∀ c ∈ l.toList, c ≠ '#') (l : String) (back : List String) :
    ∃ text, typed language (joinLines (front ++ l :: back)) = joinLines (front ++ [text]) := by
  have hfront : ∀ c ∈ (front.map String.toList).flatMap (· ++ ['\n']), c ≠ '#' := by
    intro c hc
    obtain ⟨cs, hcs, hc⟩ := List.mem_flatMap.1 hc
    obtain ⟨m, hm, rfl⟩ := List.mem_map.1 hcs
    rcases List.mem_append.1 hc with hc | hc
    · exact h m hm c hc
    · rw [List.mem_singleton.1 hc]
      decide
  refine ⟨typed language (joinLines (l :: back)), String.toList_inj.1 ?_⟩
  rw [typed, String.toList_ofList, joinLines_append, annotate_append language hfront,
    joinLines_append, joinLines_singleton, typed, String.toList_ofList]

/-- Only a mark is written as a mark. -/
theorem ne_mark_of_mem_textLiteral {s : String} (h : ∀ c ∈ s.toList, c ≠ '#') :
    ∀ c ∈ (textLiteral s).toList, c ≠ '#' := by
  intro c hc
  rw [textLiteral, Json.literal, Json.inline, String.toList_ofList, write, Json.textLiteral,
    List.cons_append, List.mem_cons, List.mem_append, List.mem_singleton, List.mem_flatMap] at hc
  rcases hc with rfl | ⟨d, hd, hc⟩ | rfl
  · decide
  · rcases escapeChar_cases .lineSafe d with ⟨hself, -⟩ | ⟨es, hescape, hes⟩
    · rw [hself, List.mem_singleton] at hc
      rw [hc]
      exact h d hd
    · rw [hescape, List.mem_cons] at hc
      exact (escapeLetters_ne c (List.mem_cons.2 (hc.imp_right (hes c)))).1
  · decide

/-- No topic has the mark of a typed line in it: a slug is of small letters, digits and hyphens. So
no pass finds anything in a topic. -/
theorem ne_mark_of_mem_topic (c : Contract) : ∀ d ∈ c.topic.toList, d ≠ '#' := by
  intro d hd
  rw [Contract.topic, Naming.topic, String.toList_append, List.mem_append] at hd
  rcases hd with hd | hd
  · exact (show ∀ d ∈ "doctype:".toList, d ≠ '#' by decide) d hd
  · rcases Naming.mem_slug hd with rfl | hd
    · decide
    · rintro rfl
      exact absurd hd (by decide)

/-- The subscription declares its topic. -/
theorem holds_realtime (names : Names) (c : Contract) :
    Holds (realtimeBlocks names c) ("subscription", [("TOPIC", .text c.topic)]) := by
  have hlines : ∀ l ∈ ["import \x7b useEffect \x7d from 'react';",
      "import \x7b subscribe \x7d from '../../lib/realtime';", "",
      constant "TOPIC" (textLiteral c.topic)], ∀ d ∈ l.toList, d ≠ '#' := by
    have hhead : ∀ d ∈ declarationHead "TOPIC", d ≠ '#' := by decide
    simp only [List.forall_mem_cons, toList_constant, List.forall_mem_append]
    exact ⟨by decide, by decide, by decide,
      ⟨⟨hhead, ne_mark_of_mem_textLiteral (ne_mark_of_mem_topic c)⟩, by decide, by simp⟩, by simp⟩
  obtain ⟨text, htext⟩ := exists_typed_joinLines names.language hlines "" _
  refine ⟨4, _, List.mem_singleton.2 (congrArg (body _) htext.symm), ?_⟩
  refine .other (passes_ofList (by decide) (by decide)) ?_
  refine .other (passes_ofList (by decide) (by decide)) <| .other passes_nil ?_
  exact .constant (by decide) (isLiteralOf_text _) (by simp) .nil

/-- **Every region but that of the permissions declares its constants.** The permissions go through
passes that may change them, and are looked at by themselves. -/
theorem holds_constants {c : Contract} (hc : c.IsPlain) (layout : Layout) (language : Language)
    (k : FileKind) : ∀ r ∈ k.constants c layout language, r.1 ≠ "permissions" →
      Holds (k.blocks c layout language) r := by
  cases k with
  | client | formObject | rules | notices | routes => simp [FileKind.constants]
  | list =>
    obtain ⟨hcolumns, hfilters, hconfig⟩ := holds_list hc (.ofContract c language) layout
    simp only [FileKind.constants, List.forall_mem_cons]
    exact ⟨fun _ => hcolumns, fun _ => hfilters, fun _ => hconfig, by simp⟩
  | form => exact fun r hr _ => holds_form _ c layout r hr
  | resource =>
    simp only [FileKind.constants, List.forall_mem_cons]
    exact ⟨fun _ => holds_resource (.ofContract c language) c, by simp⟩
  | behavior =>
    simp only [FileKind.constants, List.forall_mem_cons]
    exact ⟨fun _ => holds_behavior (.ofContract c language) c, by simp⟩
  | depends =>
    simp only [FileKind.constants, List.forall_mem_cons]
    exact ⟨fun _ => holds_depends hc _, by simp⟩
  | realtime =>
    simp only [FileKind.constants, List.forall_mem_cons]
    exact ⟨fun _ => holds_realtime _ c, by simp⟩
  | actions =>
    simp only [FileKind.constants, List.forall_mem_cons]
    -- The permissions are left to a theorem of their own, since annotations in roles are settled.
    exact ⟨fun _ => holds_workflow _ c, fun hregion => absurd rfl hregion, by simp⟩

/-- The permissions stand in a region of their own. -/
theorem ne_permissions (c : Contract) (layout : Layout) (language : Language) (k : FileKind) :
    ∀ r ∈ k.constants c layout language, r.1 ≠ "permissions" →
      ∀ d ∈ r.2, d.1 ≠ "PERMISSIONS" := by
  cases k <;> simp only [FileKind.constants, List.forall_mem_cons] <;> simp

/-- Permissions are declared in one region of one kind of file only, and there alone. -/
theorem eq_permissions (c : Contract) (layout : Layout) (language : Language) (k : FileKind) :
    ∀ r ∈ k.constants c layout language, r.1 = "permissions" → k = .actions ∧
      r.2 = [("PERMISSIONS", c.permissions.toValue Grants.toValue)] := by
  cases k <;> simp [FileKind.constants]

/-! ## Reading the files -/

section

variable {bs : List Block} (h : ∀ b ∈ bs, b.IsProper) (hnames : (documentNames bs).Nodup)
include h hnames

/-- The constants of a region are read back from the text of the document. -/
theorem declared?_of_holds {r : String × List (String × Value)} (hr : Holds bs r)
    {d : String × Value} (hd : d ∈ r.2) (hreals : ∀ x ∈ reals d.2, ReadsBack x)
    (hdata : IsWellFormed d.2) :
    declared? d.1 (innerOf (documentText bs) r.1) = some d.2 := by
  obtain ⟨n, lines, hmem, hdeclares⟩ := hr
  have hinner : innerOf (documentText bs) r.1 = closed (joinLines lines).toList :=
    innerOf_inEnding h hnames hmem false
  rw [hinner, ← List.take_append_drop n lines]
  exact hdeclares.declared? hd hreals hdata _

end

/-- The permissions are read back from the file of the actions just when all roles are kept. -/
theorem declared?_permissions_actions {c : Contract} (hc : c.IsPlain)
    (hnamed : ∀ t ∈ c.transitions, t.IsNamed) (layout : Layout) (language : Language) :
    declared? "PERMISSIONS" (innerOf (documentText (FileKind.actions.blocks c layout language))
        "permissions") = some (c.permissions.toValue Grants.toValue) ↔
      ∀ p ∈ c.permissions, IsKept language (keyText p.1) := by
  have hnames : (documentNames (FileKind.actions.blocks c layout language)).Nodup := by
    rw [documentNames_blocks]
    exact nodup_regions .actions
  have hinner : innerOf (documentText (FileKind.actions.blocks c layout language)) "permissions" =
      closed (permissionActions (.ofContract c language) c).toList :=
    innerOf_inEnding (isProper_blocks hnamed layout language .actions) hnames
      (.tail _ (.tail _ (.tail _ (.tail _ (.head _))))) false
  have hnodup : ((namedGrants c.permissions).map (·.1)).Nodup := by
    have hroles := hc.roles.nodup_keyText
    rw [Keyed.keys, List.map_map] at hroles
    rwa [namedGrants, List.map_map]
  rw [hinner]
  exact declared?_permissions_iff _ c hnodup

/-- **The data of the constants is read back from every file of a rendering.** When a contract was
built from a plain source, its rendering in any preset and language succeeds, and each file stands
at the path of its kind and declares the constants of its kind. Every constant but the permissions
is read back as the data of the contract, and the permissions are if and only if all roles are
kept. -/
theorem declared?_render_iff {source : Source} (hsource : source.IsPlain) {entity : String}
    {wanted : Option String} {c : Contract} (h : Contract.build source entity wanted = .ok c)
    {style word : String} {preset : Preset} {language : Language}
    (hstyle : resolvePreset (some style) = .ok preset)
    (hword : Language.ofWord? word = some language) (withShared : Bool) :
    ∃ files, render c style word withShared = .ok files ∧
      List.Forall₂ (fun k a => a.path = k.path (.ofContract c language) ∧
        ∀ r ∈ k.constants c preset.layout language, ∀ d ∈ r.2, (∀ x ∈ reals d.2, ReadsBack x) →
          (declared? d.1 (innerOf a.content.toList r.1) = some d.2 ↔
            (d.1 = "PERMISSIONS" → ∀ p ∈ c.permissions, IsKept language (keyText p.1))))
        (FileKind.all withShared) files := by
  have hnamed := isNamed_of_build h
  have hc := isPlain_of_build hsource h
  have hkeys : ∀ v ∈ keptNames c, v.isKey = true := by
    refine (forall_keptNames_iff h).2 fun t ht f hf => ?_
    obtain ⟨s, hs⟩ := (hc.tableFields t ht).text f.name (List.mem_map_of_mem hf)
    rw [hs]
    rfl
  refine ⟨_, render_eq_ok hkeys hstyle hword withShared, ?_⟩
  refine (isDocument_artifacts hnamed preset.layout language withShared).imp fun k a ha => ?_
  refine ⟨ha.path, fun r hr d hd hreals => ?_⟩
  rw [ha.content]
  -- Permissions are declared in a region of their own, where annotations are settled.
  by_cases hregion : r.1 = "permissions"
  · obtain ⟨rfl, hdata⟩ := eq_permissions c preset.layout language k r hr hregion
    rw [hdata, List.mem_singleton] at hd
    rw [hregion, hd, declared?_permissions_actions hc hnamed preset.layout language]
    exact ⟨fun hkept _ => hkept, fun hkept => hkept rfl⟩
  · have hnames : (documentNames (k.blocks c preset.layout language)).Nodup := by
      rw [documentNames_blocks]
      exact nodup_regions k
    have hback := declared?_of_holds (isProper_blocks hnamed preset.layout language k) hnames
      (holds_constants hc preset.layout language k r hr hregion) hd hreals
      (isWellFormed_constants hc preset.layout language k r hr d hd)
    exact iff_of_true hback fun hname =>
      absurd hname (ne_permissions c preset.layout language k r hr hregion d hd)

/-- The schema of a note, with an annotation in the name of a role. -/
def annotatedNote : Value :=
  .record [("fields", .list [.record [("fieldname", .text "title"), ("fieldtype", .text "Data"),
      ("default", .text "#\x7bx\x7d#"), ("depends_on", .text "eval:doc.kind == 'a'")]]),
    ("permissions", .list [.record [("role", .text "A#\x7bx\x7d#B"), ("read", .int 1)]])]

/-- A schema that is written with annotations in its roles has nothing but plain values in it. -/
theorem isPlain_annotated : (Source.ofSchemas (.record [("Note", annotatedNote)])).IsPlain := by
  have hschemas : IsWellFormed (.record [("Note", annotatedNote)]) := by simp [annotatedNote]
  refine isPlain_ofSchemas hschemas (List.forall_mem_singleton.2 ⟨?_, ?_⟩)
  · intro v rows hv hrows
    rw [← Except.ok.inj hv] at hrows
    rw [← Except.ok.inj hrows]
    show AreNames [.text "title"]
    exact ⟨by simp, by simp⟩
  · intro v rules hv hrules
    rw [← Except.ok.inj hv] at hrules
    rw [← Except.ok.inj hrules]
    refine List.forall_mem_singleton.2 fun rule hrule _ => ?_
    rw [← Except.ok.inj hrule]
    exact ⟨_, rfl⟩

/-- All data but the permissions is read back from its files. -/
theorem declared?_render_iff_annotated :
    ∃ c, Contract.build (.ofSchemas (.record [("Note", annotatedNote)])) "Note" (some "plain") =
        .ok c ∧ c.permissions.keys.map keyText = ["A#\x7bx\x7d#B"] ∧
      ∃ files, render c "dense" "ts" true = .ok files ∧
        List.Forall₂ (fun k a => a.path = k.path (.ofContract c .ts) ∧
          ∀ r ∈ k.constants c Preset.dense.layout .ts, ∀ d ∈ r.2, (∀ x ∈ reals d.2, ReadsBack x) →
            (declared? d.1 (innerOf a.content.toList r.1) = some d.2 ↔ d.1 ≠ "PERMISSIONS"))
          (FileKind.all true) files := by
  have hbuilt : (match Contract.build (.ofSchemas (.record [("Note", annotatedNote)])) "Note"
        (some "plain") with
      | .ok c => c.permissions.keys.map keyText
      | .error _ => []) = ["A#\x7bx\x7d#B"] := by decide +kernel
  cases h : Contract.build (.ofSchemas (.record [("Note", annotatedNote)])) "Note"
      (some "plain") with
  | error e =>
    rw [h] at hbuilt
    exact absurd hbuilt (by simp)
  | ok c =>
    have hroles : c.permissions.keys.map keyText = ["A#\x7bx\x7d#B"] := by
      rw [h] at hbuilt
      exact hbuilt
    -- The name of the role holds an annotation, so that it is not kept.
    have hnot : ¬∀ p ∈ c.permissions, IsKept .ts (keyText p.1) := by
      intro hkept
      have hmem : "A#\x7bx\x7d#B" ∈ c.permissions.keys.map keyText := by simp [hroles]
      obtain ⟨key, hkey, hrole⟩ := List.mem_map.1 hmem
      obtain ⟨p, hp, rfl⟩ := List.mem_map.1 hkey
      exact (hrole ▸ (hkept p hp).1) ⟨['A'], ['x'], ['B'], by decide⟩
    obtain ⟨files, hfiles, hread⟩ := declared?_render_iff isPlain_annotated h
      (resolvePreset_name .dense) (ofWord?_word .ts) true
    refine ⟨c, rfl, hroles, files, hfiles, hread.imp fun k a ha => ⟨ha.1, fun r hr d hd hx => ?_⟩⟩
    rw [ha.2 r hr d hd hx]
    exact ⟨fun himp hname => hnot (himp hname), fun hname heq => absurd heq hname⟩

end FormScaffold.View
