import FormScaffold.Metadata.Memory
import FormScaffold.Proofs.Contract.Children

/-! # Parts of a contract

A contract is put together from what the metadata of the entity itself gives and from the tables of
its child entities.

* `ownParts` — what the answers about the entity itself give;
* **`build_eq_ok`** — a contract is built when these answers can be used, hold a data row, and the
  child tables can be made. -/

namespace FormScaffold

open Text

/-- What the metadata of an entity gives for its contract, its child tables apart. -/
structure OwnParts where
  /-- The data rows. -/
  rows : List Entries
  columns : List Column
  filters : List Filter
  sections : List FormSection
  permissions : Keyed Grants
  workflow : Option Workflow
  transitions : List Transition
  behaviors : List Behavior
  /-- The warnings about the rows. -/
  rowWarnings : List Warning
  workflowWarnings : List Warning

/-- The parts that the answers about an entity give. -/
def ownParts (raw : RawEntity) : Except Fault OwnParts := do
  let (rows, overrideWarnings) ← applyOverrides raw.fields raw.overrides
  let (dataRows, unnamed) ← splitRows 0 (rows.map .record)
  let columns ← listColumns dataRows
  let filters ← listFilters dataRows
  let (sections, sectionWarnings) ← formSections (rows.map .record)
  let permissions ← mergePermissions (rulesAsValues raw.permissions)
  let (workflow, transitions, workflowWarnings) ← readWorkflow raw.workflow
  let found ← behaviors raw.scripts (dataRows.map (·.get "fieldname"))
  return {
    rows := dataRows
    columns, filters, sections, permissions, workflow, transitions
    behaviors := found
    rowWarnings := overrideWarnings ++ unnamed.map (.unnamed "") ++ sectionWarnings
    workflowWarnings }

/-- A question about the entity itself is answered as the source answers it. -/
theorem outcome_askPart_eq_ok {source : Source} {part : Part} {entity : String} {v : Value} :
    (askPart source part entity).outcome = .ok v ↔ source.fetch part entity = .ok v :=
  mapError_eq_ok

/-- The parts that a source gives for an entity: it answers the five questions, and the answers can
be used. -/
def Source.ownParts (source : Source) (entity : String) : Except BuildError OwnParts := do
  let raw ← (askEntity source entity).outcome
  (FormScaffold.ownParts raw).mapError .fault

/-- The contract of an entity from its own parts and its child tables. -/
def OwnParts.contract (own : OwnParts) (entity : String) (preset : Preset)
    (tables : Keyed ChildTable) (warnings : List Warning) : Contract where
  entity := entity
  preset := preset
  columns := own.columns
  filters := own.filters
  sections := own.sections
  childTables := tables
  permissions := own.permissions
  transitions := own.transitions
  workflow := own.workflow
  behaviors := own.behaviors
  warnings := own.rowWarnings ++ warnings ++ own.workflowWarnings

/-! ## Rows of the parts -/

/-- The rows of the parts and the form that they make. -/
theorem exists_of_ownParts {raw : RawEntity} {own : OwnParts} (h : ownParts raw = .ok own) :
    ∃ rows overrideWarnings unnamed sectionWarnings,
      applyOverrides raw.fields raw.overrides = .ok (rows, overrideWarnings) ∧
      splitRows 0 (rows.map .record) = .ok (own.rows, unnamed) ∧
      listColumns own.rows = .ok own.columns ∧ listFilters own.rows = .ok own.filters ∧
      formSections (rows.map .record) = .ok (own.sections, sectionWarnings) ∧
      mergePermissions (rulesAsValues raw.permissions) = .ok own.permissions ∧
      readWorkflow raw.workflow = .ok (own.workflow, own.transitions, own.workflowWarnings) ∧
      behaviors raw.scripts (own.rows.map (·.get "fieldname")) = .ok own.behaviors ∧
      own.rowWarnings = overrideWarnings ++ unnamed.map (.unnamed "") ++ sectionWarnings := by
  obtain ⟨⟨rows, overrideWarnings⟩, hrows, h⟩ := bind_eq_ok.1 h
  obtain ⟨⟨dataRows, unnamed⟩, hdata, h⟩ := bind_eq_ok.1 h
  obtain ⟨columns, hcolumns, h⟩ := bind_eq_ok.1 h
  obtain ⟨filters, hfilters, h⟩ := bind_eq_ok.1 h
  obtain ⟨⟨sections, sectionWarnings⟩, hsections, h⟩ := bind_eq_ok.1 h
  obtain ⟨permissions, hpermissions, h⟩ := bind_eq_ok.1 h
  obtain ⟨⟨workflow, transitions, workflowWarnings⟩, hworkflow, h⟩ := bind_eq_ok.1 h
  obtain ⟨found, hfound, h⟩ := bind_eq_ok.1 h
  cases h
  exact ⟨rows, overrideWarnings, unnamed, sectionWarnings, hrows, hdata, hcolumns, hfilters,
    hsections, hpermissions, hworkflow, hfound, rfl⟩

/-- Warnings of other codes are about no expression. -/
theorem filterMap_dropped?_of_code {warnings : List Warning}
    (h : ∀ w ∈ warnings, w.code ≠ "expression_parse_error") :
    warnings.filterMap Warning.dropped? = [] := by
  refine List.filterMap_eq_nil_iff.2 fun w hw => ?_
  cases w with
  | dropped d => exact absurd rfl (h _ hw)
  | _ => rfl

/-- Overrides warn of fields that do not exist. -/
theorem code_of_applyPatches {rows patched : List Entries} {patches : List Value}
    {warnings : List Warning} (h : applyPatches rows patches = .ok (patched, warnings)) :
    ∀ w ∈ warnings, w.code = "unknown_override_field" := by
  induction patches generalizing rows warnings with
  | nil =>
    cases h
    simp
  | cons v vs ih =>
    obtain ⟨patch, -, h⟩ := bind_eq_ok.1 h
    obtain ⟨key, -, h⟩ := bind_eq_ok.1 h
    obtain ⟨⟨later, rest⟩, hlater, h⟩ := bind_eq_ok.1 h
    obtain ⟨rfl, rfl⟩ := Prod.mk.inj (Except.ok.inj h)
    have hfirst : ∀ w ∈ (applyPatch rows patch).2, w.code = "unknown_override_field" := by
      unfold applyPatch
      simp only
      split
      · simp
      · exact List.forall_mem_singleton.2 rfl
    intro w hw
    rcases List.mem_append.1 hw with hw | hw
    · exact hfirst w hw
    · exact ih hlater w hw

/-- Overrides warn only of fields that they do not find. -/
theorem code_of_applyOverrides {fields overrides : Value} {rows : List Entries}
    {warnings : List Warning} (h : applyOverrides fields overrides = .ok (rows, warnings)) :
    ∀ w ∈ warnings, w.code = "unknown_override_field" := by
  obtain ⟨vs, -, h⟩ := bind_eq_ok.1 h
  obtain ⟨all, -, h⟩ := bind_eq_ok.1 h
  obtain ⟨_, -, h⟩ := bind_eq_ok.1 h
  obtain ⟨patches, -, h⟩ := bind_eq_ok.1 h
  exact code_of_applyPatches h

/-- Transitions are warned of when they are incomplete. -/
theorem code_of_splitTransitions (place : Nat) (ts : List (Option Transition)) :
    ∀ w ∈ (splitTransitions place ts).2, w.code = "incomplete_transition" := by
  induction ts generalizing place with
  | nil => simp [splitTransitions]
  | cons t ts ih =>
    cases t with
    | some t => exact ih (place + 1)
    | none => exact List.forall_mem_cons.2 ⟨rfl, ih (place + 1)⟩

/-- A workflow warns of its transitions alone. -/
theorem code_of_readWorkflow {v : Value} {w : Option Workflow} {ts : List Transition}
    {warnings : List Warning} (h : readWorkflow v = .ok (w, ts, warnings)) :
    ∀ w ∈ warnings, w.code = "incomplete_transition" := by
  unfold readWorkflow at h
  split at h
  · cases h
    simp
  · obtain ⟨raw, -, h⟩ := bind_eq_ok.1 h
    split at h
    · obtain ⟨rawStates, -, h⟩ := bind_eq_ok.1 h
      obtain ⟨states, -, h⟩ := bind_eq_ok.1 h
      obtain ⟨rawTransitions, -, h⟩ := bind_eq_ok.1 h
      obtain ⟨read, -, h⟩ := bind_eq_ok.1 h
      obtain ⟨-, hsplit⟩ := Prod.mk.inj (Except.ok.inj h)
      rw [show warnings = (splitTransitions 0 read).2 from congrArg Prod.snd hsplit.symm]
      exact code_of_splitTransitions 0 read
    · cases h
      simp

/-- **The form has one field for each data row**, and the expressions that are dropped are those of
data rows that cannot be read. -/
theorem made_of_ownParts {raw : RawEntity} {own : OwnParts} (h : ownParts raw = .ok own) :
    List.Forall₂ IsMade own.rows (own.sections.flatMap (·.fields)) ∧
      own.rowWarnings.filterMap Warning.dropped? = own.rows.flatMap (unreadable "") ∧
      own.workflowWarnings.filterMap Warning.dropped? = [] := by
  obtain ⟨rows, overrideWarnings, unnamed, sectionWarnings, hrows, hdata, -, -, hsections, -,
    hworkflow, -, hwarnings⟩ := exists_of_ownParts h
  obtain ⟨fields, hfields, hflat, hdropped⟩ := exists_of_fill hsections
  -- Warnings of overrides, of unnamed rows and of the workflow are about no expressions.
  have hoverrides : overrideWarnings.filterMap Warning.dropped? = [] :=
    filterMap_dropped?_of_code fun w hw => by
      rw [code_of_applyOverrides hrows w hw]
      decide
  have hunnamed : (unnamed.map (Warning.unnamed "")).filterMap Warning.dropped? = [] := by
    rw [List.filterMap_map]
    exact List.filterMap_eq_nil_iff.2 fun _ _ => rfl
  have htransitions : own.workflowWarnings.filterMap Warning.dropped? = [] :=
    filterMap_dropped?_of_code fun w hw => by
      rw [code_of_readWorkflow hworkflow w hw]
      decide
  rw [filter_of_splitRows hdata, hflat]
  refine ⟨hfields, ?_, htransitions⟩
  rw [hwarnings, List.filterMap_append, List.filterMap_append, hoverrides, hunnamed, hdropped]
  rfl

/-- The fields of an entity are those of its data rows, in order, and the warnings name just the
conditions that cannot be read. -/
theorem describes_of_ownParts {raw : RawEntity} {own : OwnParts} (h : ownParts raw = .ok own) :
    List.Forall₂ Describes own.rows (own.sections.flatMap (·.fields)) ∧
      own.rowWarnings.filterMap Warning.dropped? = own.rows.flatMap (unreadable "") ∧
      own.workflowWarnings.filterMap Warning.dropped? = [] := by
  obtain ⟨hmade, hdropped⟩ := made_of_ownParts h
  exact ⟨hmade.imp fun _ _ => IsMade.describes, hdropped⟩

/-- Names that can all be looked up are keys. -/
theorem isKey_of_forM {names : List Value}
    (h : (names.forM fun v => do let _ ← v.key : Except Fault Unit) = .ok ()) :
    ∀ v ∈ names, v.isKey = true := by
  induction names with
  | nil => simp
  | cons v names ih =>
    obtain ⟨_, hv, hrest⟩ := bind_eq_ok.1 h
    obtain ⟨key, hkey, -⟩ := bind_eq_ok.1 hv
    exact List.forall_mem_cons.2 ⟨(key_eq_ok.1 hkey).1, ih hrest⟩

/-- The names of the data rows are keys, as their types are. -/
theorem areKeyed_of_ownParts {raw : RawEntity} {own : OwnParts} (h : ownParts raw = .ok own) :
    AreKeyed own.rows := by
  obtain ⟨rows, overrideWarnings, unnamed, sectionWarnings, -, hdata, -, -, -, -, -, hfound, -⟩ :=
    exists_of_ownParts h
  obtain ⟨rows', -, heq, htypes⟩ := exists_of_splitRows hdata
  refine ⟨fun row hrow => htypes row ?_, ?_⟩
  · rw [heq] at hrow
    exact List.mem_of_mem_filter hrow
  · obtain ⟨_, hkeys, -⟩ := bind_eq_ok.1 hfound
    -- The names are looked up by the handlers of client scripts.
    exact fun row hrow => isKey_of_forM hkeys _ (List.mem_map_of_mem hrow)

/-! ## Contracts -/

/-- **A contract is put together when the answers about the entity can be used and hold a data row,
and the child tables can be made.** -/
theorem outcome_assemble_eq_ok {source : Source} {entity : String} {preset : Preset}
    {raw : RawEntity} {c : Contract} :
    (assemble source entity preset raw).outcome = .ok c ↔
      ∃ own tables warnings, ownParts raw = .ok own ∧ own.rows ≠ [] ∧
        (childTables source [] [] own.rows).outcome = .ok (tables, warnings) ∧
        c = own.contract entity preset tables warnings := by
  -- Both sides take the same steps, but for the child tables, which the one side makes in between.
  constructor
  · intro h
    obtain ⟨⟨rows, overrideWarnings⟩, hrows, h⟩ := Traced.outcome_bind_eq_ok.1 h
    obtain ⟨⟨dataRows, unnamed⟩, hdata, h⟩ := Traced.outcome_bind_eq_ok.1 h
    simp only at h
    split at h
    · exact absurd h (by simp [Traced.fail])
    rename_i hempty
    obtain ⟨columns, hcolumns, h⟩ := Traced.outcome_bind_eq_ok.1 h
    obtain ⟨filters, hfilters, h⟩ := Traced.outcome_bind_eq_ok.1 h
    obtain ⟨⟨sections, sectionWarnings⟩, hsections, h⟩ := Traced.outcome_bind_eq_ok.1 h
    obtain ⟨⟨tables, tableWarnings⟩, htables, h⟩ := Traced.outcome_bind_eq_ok.1 h
    obtain ⟨permissions, hpermissions, h⟩ := Traced.outcome_bind_eq_ok.1 h
    obtain ⟨⟨workflow, transitions, workflowWarnings⟩, hworkflow, h⟩ :=
      Traced.outcome_bind_eq_ok.1 h
    obtain ⟨found, hfound, h⟩ := Traced.outcome_bind_eq_ok.1 h
    obtain rfl := Except.ok.inj h
    refine ⟨⟨dataRows, columns, filters, sections, permissions, workflow, transitions, found,
      overrideWarnings ++ unnamed.map (.unnamed "") ++ sectionWarnings, workflowWarnings⟩,
      tables, tableWarnings, ?_, ?_, htables, ?_⟩
    · refine bind_eq_ok.2 ⟨_, outcome_use_eq_ok.1 hrows, ?_⟩
      refine bind_eq_ok.2 ⟨_, outcome_use_eq_ok.1 hdata, ?_⟩
      refine bind_eq_ok.2 ⟨_, outcome_use_eq_ok.1 hcolumns, ?_⟩
      refine bind_eq_ok.2 ⟨_, outcome_use_eq_ok.1 hfilters, ?_⟩
      refine bind_eq_ok.2 ⟨_, outcome_use_eq_ok.1 hsections, ?_⟩
      refine bind_eq_ok.2 ⟨_, outcome_use_eq_ok.1 hpermissions, ?_⟩
      refine bind_eq_ok.2 ⟨_, outcome_use_eq_ok.1 hworkflow, ?_⟩
      exact bind_eq_ok.2 ⟨_, outcome_use_eq_ok.1 hfound, rfl⟩
    · simpa using hempty
    · rfl
  · rintro ⟨own, tables, warnings, hown, hne, htables, rfl⟩
    obtain ⟨rows, overrideWarnings, unnamed, sectionWarnings, hrows, hdata, hcolumns, hfilters,
      hsections, hpermissions, hworkflow, hfound, hwarnings⟩ := exists_of_ownParts hown
    refine Traced.outcome_bind_eq_ok.2 ⟨_, outcome_use_eq_ok.2 hrows, ?_⟩
    refine Traced.outcome_bind_eq_ok.2 ⟨_, outcome_use_eq_ok.2 hdata, ?_⟩
    have hempty : ¬own.rows.isEmpty = true := by simpa using hne
    simp only [if_neg hempty]
    refine Traced.outcome_bind_eq_ok.2 ⟨_, outcome_use_eq_ok.2 hcolumns, ?_⟩
    refine Traced.outcome_bind_eq_ok.2 ⟨_, outcome_use_eq_ok.2 hfilters, ?_⟩
    refine Traced.outcome_bind_eq_ok.2 ⟨_, outcome_use_eq_ok.2 hsections, ?_⟩
    refine Traced.outcome_bind_eq_ok.2 ⟨_, htables, ?_⟩
    refine Traced.outcome_bind_eq_ok.2 ⟨_, outcome_use_eq_ok.2 hpermissions, ?_⟩
    refine Traced.outcome_bind_eq_ok.2 ⟨_, outcome_use_eq_ok.2 hworkflow, ?_⟩
    refine Traced.outcome_bind_eq_ok.2 ⟨_, outcome_use_eq_ok.2 hfound, ?_⟩
    simp [OwnParts.contract, hwarnings]

/-- **What a contract is built from.** The entity has a name, the preset exists, the answers about
the entity can be used, and the child tables can be made. Whatever is said of a contract that was
built starts from here. -/
theorem build_eq_ok {source : Source} {entity : String} {wanted : Option String} {c : Contract} :
    Contract.build source entity wanted = .ok c ↔
      strip entity ≠ "" ∧ ∃ preset own tables warnings, resolvePreset wanted = .ok preset ∧
        source.ownParts (strip entity) = .ok own ∧ own.rows ≠ [] ∧
        (childTables source [] [] own.rows).outcome = .ok (tables, warnings) ∧
        c = own.contract (strip entity) preset tables warnings := by
  unfold Contract.build Contract.asking Source.ownParts
  simp only
  split
  · rename_i hname
    refine iff_of_false (by simp [Traced.fail]) ?_
    exact fun h => h.1 (beq_iff_eq.1 hname)
  · rename_i hname
    have hne : strip entity ≠ "" := fun heq => hname (beq_iff_eq.2 heq)
    -- Both sides take the same steps: the name, the preset, the answers and what is made of them.
    constructor
    · intro h
      obtain ⟨preset, hpreset, h⟩ := Traced.outcome_bind_eq_ok.1 h
      obtain ⟨raw, hraw, h⟩ := Traced.outcome_bind_eq_ok.1 h
      rw [Traced.outcome_ofExcept] at hpreset
      obtain ⟨own, tables, warnings, hown, h⟩ := outcome_assemble_eq_ok.1 h
      exact ⟨hne, preset, own, tables, warnings, hpreset,
        bind_eq_ok.2 ⟨raw, hraw, mapError_eq_ok.2 hown⟩, h⟩
    · rintro ⟨-, preset, own, tables, warnings, hpreset, hown, h⟩
      obtain ⟨raw, hraw, hown⟩ := bind_eq_ok.1 hown
      rw [← Traced.outcome_ofExcept (resolvePreset wanted)] at hpreset
      refine Traced.outcome_bind_eq_ok.2 ⟨preset, hpreset, ?_⟩
      refine Traced.outcome_bind_eq_ok.2 ⟨raw, hraw, ?_⟩
      exact outcome_assemble_eq_ok.2 ⟨own, tables, warnings, mapError_eq_ok.1 hown, h⟩

/-- **The transitions of a contract that is built have names.** So each of them gets a function in
the module of the actions, and a line of comment that is not empty. -/
theorem isNamed_of_build {source : Source} {entity : String} {wanted : Option String}
    {c : Contract} (h : Contract.build source entity wanted = .ok c) :
    ∀ t ∈ c.transitions, t.IsNamed := by
  obtain ⟨-, preset, own, tables, warnings, -, hown, -, -, rfl⟩ := build_eq_ok.1 h
  obtain ⟨raw, -, hraw⟩ := bind_eq_ok.1 hown
  obtain ⟨rows, overrideWarnings, unnamed, sectionWarnings, -, -, -, -, -, -, hworkflow, -⟩ :=
    exists_of_ownParts (mapError_eq_ok.1 hraw)
  exact isNamed_of_readWorkflow hworkflow

section Built

variable {source : Source} {entity : String} {own : OwnParts}
  (hown : source.ownParts entity = .ok own)

include hown

/-- When the child tables can be made, those of the table fields were. -/
theorem exists_made_of_childTables {tables : Keyed ChildTable} {warnings : List Warning}
    (h : (childTables source [] [] own.rows).outcome = .ok (tables, warnings)) :
    ∃ made, (tableFields own.rows).mapM (tableOf source) = .ok made ∧
      tables = Keyed.ofList (made.map (·.1)) ∧
      warnings.filterMap Warning.dropped? = made.flatMap (·.2.filterMap Warning.dropped?) ∧
      ∀ t ∈ tableFields own.rows, ∀ e, source.fetch .fieldList t.2 = .error (.error e) →
        ∃ field, (field, t.2) ∈ tableFields own.rows ∧
          .childUnresolved t.2 e.message field ∈ warnings := by
  obtain ⟨raw, -, hraw⟩ := bind_eq_ok.1 hown
  have hkeyed := areKeyed_of_ownParts (mapError_eq_ok.1 hraw)
  have hnone : Children.IsAnswered source [] := by simp [Children.IsAnswered]
  cases hmade : (tableFields own.rows).mapM (tableOf source) with
  | error f =>
    rw [outcome_childTables_of_error hkeyed hnone [] hmade] at h
    exact absurd h (by simp)
  | ok made =>
    obtain ⟨warnings', houtcome, hdropped, hunresolved⟩ :=
      outcome_childTables_of_ok hkeyed hnone [] hmade
    rw [houtcome] at h
    obtain ⟨rfl, rfl⟩ := Prod.mk.inj (Except.ok.inj h)
    exact ⟨made, rfl, putTables_nil made, hdropped, fun t ht => hunresolved t ht rfl⟩

/-- The child tables that are made are those of the table fields, under their names. -/
theorem tabulates_of_childTables {tables : Keyed ChildTable} {warnings : List Warning}
    (h : (childTables source [] [] own.rows).outcome = .ok (tables, warnings)) :
    (∃ made, tables = Keyed.ofList made ∧
      List.Forall₂ (Tabulates source) (tableFields own.rows) made) ∧
      (warnings.filterMap Warning.dropped? = (tableFields own.rows).flatMap fun t =>
        (source.childRows t.2).flatMap (unreadable (t.1.display ++ "."))) ∧
      ∀ t ∈ tableFields own.rows, ∀ e, source.fetch .fieldList t.2 = .error (.error e) →
        ∃ field, (field, t.2) ∈ tableFields own.rows ∧
          .childUnresolved t.2 e.message field ∈ warnings := by
  obtain ⟨made, hmade, hput, hdropped, hunresolved⟩ := exists_made_of_childTables hown h
  have htables := (mapM_eq_ok.1 hmade).imp fun t p hp => tabulates_of_tableOf hp
  refine ⟨⟨_, hput, ?_⟩, ?_, hunresolved⟩
  · rw [List.forall₂_map_right_iff]
    exact htables.imp fun t p hp => hp.1
  · rw [hdropped]
    exact flatMap_eq_flatMap_of_forall₂ (htables.imp fun t p hp => hp.2)

/-- The child tables can be made unless a fault stands in the way of one. -/
theorem exists_childTables_iff :
    (∃ tables warnings, (childTables source [] [] own.rows).outcome = .ok (tables, warnings)) ↔
      ∀ t ∈ tableFields own.rows, (∀ f, source.fetch .fieldList t.2 ≠ .error (.fault f)) ∧
        ∀ v, source.fetch .fieldList t.2 = .ok v →
          ∃ described, describeChild (t.1.display ++ ".") v = .ok described := by
  constructor
  · rintro ⟨tables, warnings, h⟩ t ht
    obtain ⟨made, hmade, -⟩ := exists_made_of_childTables hown h
    obtain ⟨p, -, hp⟩ := exists_of_mem_forall₂ (mapM_eq_ok.1 hmade).flip ht
    exact exists_tableOf_iff.1 ⟨p, hp⟩
  · intro h
    obtain ⟨raw, -, hraw⟩ := bind_eq_ok.1 hown
    have hkeyed := areKeyed_of_ownParts (mapError_eq_ok.1 hraw)
    have hnone : Children.IsAnswered source [] := by simp [Children.IsAnswered]
    obtain ⟨made, hmade⟩ := exists_mapM_eq_ok fun t ht => exists_tableOf_iff.2 (h t ht)
    obtain ⟨warnings, houtcome, -⟩ := outcome_childTables_of_ok hkeyed hnone [] hmade
    exact ⟨_, warnings, houtcome⟩

end Built

/-! ## Child entities that are not given -/

/-- A table of a child entity that the source does not give has no fields. -/
theorem Tabulates.eq_unresolved {source : Source} {t : Value × String} {p : Value × ChildTable}
    (h : Tabulates source t p) {e : FetchFailure}
    (he : source.fetch .fieldList t.2 = .error e) : p.2 = ⟨t.2, [], false⟩ := by
  have hrows : source.childRows t.2 = [] := by rw [Source.childRows, he]
  have hfields : p.2.fields = [] := by
    have hforall := h.fields
    rw [hrows] at hforall
    exact List.forall₂_nil_left_iff.1 hforall
  have hresolved : p.2.resolved = false := by
    rw [h.resolved, he]
    rfl
  have hentity := h.entity
  obtain ⟨name, table⟩ := p
  cases table
  simp_all

/-- **A child entity that cannot be fetched leaves its tables unresolved.** Given that the metadata
of an entity itself can be used and holds a data row, its contract is built if and only if no fault
keeps the fields of a child entity from being fetched or from being described. Then every table
field has its table under its name; the table of an entity whose fetching ended with an error is
unresolved, and a warning says why. -/
theorem unresolved_of_build {source : Source} {entity : String} {wanted : Option String}
    {preset : Preset} {own : OwnParts} (hname : strip entity ≠ "")
    (hpreset : resolvePreset wanted = .ok preset)
    (hown : source.ownParts (strip entity) = .ok own) (hrows : own.rows ≠ []) :
    ((∃ c, Contract.build source entity wanted = .ok c) ↔
        ∀ t ∈ tableFields own.rows, (∀ f, source.fetch .fieldList t.2 ≠ .error (.fault f)) ∧
          ∀ v, source.fetch .fieldList t.2 = .ok v →
            ∃ described, describeChild (t.1.display ++ ".") v = .ok described) ∧
      ∀ c, Contract.build source entity wanted = .ok c →
        (∃ tables, c.childTables = Keyed.ofList tables ∧
          List.Forall₂ (fun t p => p.1 = t.1 ∧ p.2.entity = t.2 ∧
            ∀ e, source.fetch .fieldList t.2 = .error (.error e) → p.2 = ⟨t.2, [], false⟩)
            (tableFields own.rows) tables) ∧
        ∀ t ∈ tableFields own.rows, ∀ e, source.fetch .fieldList t.2 = .error (.error e) →
          ∃ field, (field, t.2) ∈ tableFields own.rows ∧
            .childUnresolved t.2 e.message field ∈ c.warnings := by
  constructor
  · rw [← exists_childTables_iff hown]
    constructor
    · rintro ⟨c, hc⟩
      obtain ⟨-, -, own', tables, warnings, -, hown', -, htables, -⟩ := build_eq_ok.1 hc
      obtain rfl : own = own' := Except.ok.inj (hown.symm.trans hown')
      exact ⟨tables, warnings, htables⟩
    · rintro ⟨tables, warnings, htables⟩
      exact ⟨_, build_eq_ok.2 ⟨hname, preset, own, tables, warnings, hpreset, hown, hrows,
        htables, rfl⟩⟩
  -- In a contract that was built, the tables are those that the fetching of the children made.
  · intro c hc
    obtain ⟨-, -, own', tables, warnings, -, hown', -, htables, rfl⟩ := build_eq_ok.1 hc
    obtain rfl : own = own' := Except.ok.inj (hown.symm.trans hown')
    obtain ⟨⟨made, hmade, hall⟩, -, hunresolved⟩ := tabulates_of_childTables hown htables
    refine ⟨⟨made, hmade, hall.imp fun t p hp => ⟨hp.name, hp.entity, fun e he =>
      hp.eq_unresolved he⟩⟩, fun t ht e he => ?_⟩
    obtain ⟨field, hfield, hwarned⟩ := hunresolved t ht e he
    exact ⟨field, hfield, List.mem_append_left _ (List.mem_append_right _ hwarned)⟩

/-- A source that knows a note with a table of items, but no item. -/
def lostItems : Source :=
  .ofSchemas (.record [("Note", .record [("fields", .list [.record
    [("fieldname", .text "items"), ("fieldtype", .text "Table"), ("options", .text "Item")]])])])

/-- Its note has a contract, in which the items are unresolved. -/
theorem unresolved_of_build_items :
    ∃ c, Contract.build lostItems "Note" (some "plain") = .ok c ∧
      c.childTables.map (·.2) = [⟨"Item", [], false⟩] ∧
      ∃ field, .childUnresolved "Item" "Unknown entity 'Item'" field ∈ c.warnings := by
  obtain ⟨own, hown, htables⟩ := exists_of_map_toOption
    (show (lostItems.ownParts (strip "Note")).toOption.map (fun own =>
      (tableFields own.rows).map (·.2)) = some ["Item"] by decide +kernel)
  have hchild : ∀ t ∈ tableFields own.rows,
      lostItems.fetch .fieldList t.2 = .error (.error (.unknownEntity "Item")) := by
    intro t ht
    have hitem : t.2 ∈ ["Item"] := htables ▸ List.mem_map_of_mem ht
    rw [List.mem_singleton.1 hitem]
    rfl
  have hrows : own.rows ≠ [] := by
    intro hnil
    rw [hnil] at htables
    exact absurd htables (by simp [tableFields])
  have hpreset : resolvePreset (some "plain") = .ok .plain := by decide
  obtain ⟨hbuilt, hunresolved⟩ :=
    unresolved_of_build (by decide : strip "Note" ≠ "") hpreset hown hrows
  obtain ⟨c, hc⟩ := hbuilt.2 fun t ht => by
    rw [hchild t ht]
    exact ⟨fun f => by simp, fun v => by simp⟩
  obtain ⟨⟨tables, hofList, hall⟩, hwarned⟩ := hunresolved c hc
  obtain ⟨t, heq, hitem⟩ := List.map_eq_singleton_iff.1 htables
  rw [heq] at hall hchild hwarned
  have hmem := List.mem_singleton_self t
  obtain ⟨p, rest, ⟨-, -, hp⟩, hrest, rfl⟩ := List.forall₂_cons_left_iff.1 hall
  obtain rfl := List.forall₂_nil_left_iff.1 hrest
  obtain ⟨field, -, hfield⟩ := hwarned t hmem _ (hchild t hmem)
  rw [hitem] at hfield
  refine ⟨c, hc, ?_, field, hfield⟩
  rw [hofList, ← hitem, ← hp _ (hchild t hmem)]
  rfl

end FormScaffold
