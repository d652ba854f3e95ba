import FormScaffold.Proofs.Contract.Textual

/-! # How building a contract fails

From schemas whose rows are records, with texts where texts are used, building a contract fails in
the declared ways: nothing is named, the preset is unknown, the entity is unknown, or it holds no
data. One fault is left over, whatever the other attributes hold: an endless number where a whole
one is needed.

* **`Schema.IsShaped`** — a schema whose rows are records with texts where texts are used;
* `Schema.Overflows` — where such a schema holds endless numbers that are read;
* **`build_eq_fault_iff`** — building fails with a fault just for such a schema, and then at an
  endless number. -/

namespace FormScaffold

open Text

/-! ## Schemas in shape -/

/-- **The rows of a schema are records, with texts where texts are used.** Whatever stands there but
does not count is as good as absent. -/
structure Schema.IsShaped (schema : Entries) : Prop where
  fields : AreRows IsTyped (schema.get "fields")
  overrides : AreRows IsTyped (schema.get "overrides")
  setters : AreRows IsTyped (schema.get "property_setters")
  scripts : AreRows (HasTexts ["script"]) (schema.get "client_scripts")
  rules : AreRows (HasTexts ["role"]) (schema.get "permissions")
  workflow : (schema.get "workflow").truthy = true →
    ∃ raw, schema.get "workflow" = .record raw ∧ IsWorkflow raw

/-- Under each name stands nothing, or a schema in shape. -/
def AreShaped (schemas : Entries) : Prop :=
  ∀ e ∈ schemas, e.2 = .null ∨ ∃ schema, e.2 = .record schema ∧ Schema.IsShaped schema

/-- The overrides of a schema, under the one name or the other. -/
def Schema.overridesOf (schema : Entries) : Value :=
  orEmpty ((schema.get "overrides").orElse (schema.get "property_setters"))

/-- **An endless number stands where the schema is read as a whole one**: the schema holds data, and
a listed row, a rule of a role, or a state of the workflow has such a number. -/
def Schema.Overflows (schema : Entries) : Prop :=
  ∃ rows warnings,
    applyOverrides (orEmpty (schema.get "fields")) (Schema.overridesOf schema) =
      .ok (rows, warnings) ∧
    rows.filter isData ≠ [] ∧
    ((∃ row ∈ rows.filter isData, IsListedEndless row) ∨
      (∃ rule ∈ (schema.get "permissions").rows, (Entries.get rule "role").truthy = true ∧
        (Entries.get rule "permlevel").IsEndless) ∨
      IsTrackedEndless (schema.get "workflow"))

/-- The first of two such values that counts is one of them. -/
theorem AreRows.orElse {P : Entries → Prop} {v other : Value} (hv : AreRows P v)
    (hother : AreRows P other) : AreRows P (v.orElse other) := by
  unfold Value.orElse
  split <;> assumption

/-- Such a value, or an empty list in its place, is such a value. -/
theorem AreRows.orEmpty {P : Entries → Prop} {v : Value} (h : AreRows P v) :
    AreRows P (FormScaffold.orEmpty v) :=
  h.orElse fun hempty => absurd hempty (by simp [Value.truthy])

/-- Rows, or a list of none. -/
theorem AreRows.orEmpty_eq {P : Entries → Prop} {v : Value} (h : AreRows P v) :
    FormScaffold.orEmpty v = .list (v.rows.map .record) := by
  unfold FormScaffold.orEmpty Value.orElse
  split
  · rename_i htruthy
    obtain ⟨rows, rfl, -⟩ := h htruthy
    rw [rows_records]
  · rename_i hfalse
    rw [rows_eq_nil (Bool.eq_false_iff.2 hfalse)]
    rfl

/-- A workflow that does not count has no states. -/
theorem isTrackedEndless_orElse (v : Value) :
    IsTrackedEndless (v.orElse .null) ↔ IsTrackedEndless v := by
  unfold Value.orElse
  split
  · exact Iff.rfl
  · rename_i hfalse
    refine iff_of_false (by simp [IsTrackedEndless]) ?_
    rintro ⟨raw, rfl, -, state, hstate, -⟩
    have hraw : raw = [] := by simpa [Value.truthy] using hfalse
    rw [hraw] at hstate
    exact absurd hstate (by simp [Entries.get, Value.rows])

/-! ## Answers from schemas -/

/-- The rules of a schema in shape by role. -/
theorem exists_permissions {schema : Entries} (h : Schema.IsShaped schema) :
    ∃ grouped, Schema.permissions (.record schema) = .ok grouped ∧ AreNames grouped.keys ∧
      (∀ role ∈ grouped.keys, role.truthy = true) ∧
      ∀ Q : Entries → Prop, (∃ p ∈ grouped, ∃ r ∈ p.2, Q r) ↔
        ∃ rule ∈ (schema.get "permissions").rows,
          (Entries.get rule "role").truthy = true ∧ Q rule := by
  have hroles : ∀ rule ∈ (schema.get "permissions").rows, HasTextRole (.record rule) := by
    rintro rule hrule _ ⟨⟩ htruthy
    rcases (h.rules.forall_mem rule hrule).get "role" (by simp) with hnull | hs
    · rw [hnull] at htruthy
      exact absurd htruthy Bool.false_ne_true
    · exact hs
  obtain ⟨grouped, hgrouped, hrest⟩ := exists_groupRules hroles
  have helements : (orEmpty (schema.get "permissions")).elementsOrNone =
      .ok ((schema.get "permissions").rows.map .record) := by
    rw [h.rules.orEmpty_eq, elementsOrNone_records]
  exact ⟨grouped, bind_eq_ok.2 ⟨_, rfl, bind_eq_ok.2 ⟨_, helements, hgrouped⟩⟩, hrest⟩

/-- A schema in shape is found, or nothing stands under the name. -/
theorem findSchema_of_areShaped {schemas : Entries} (h : AreShaped schemas) (entity : String) :
    (schemas.get entity = .null ∧
      findSchema (.record schemas) entity = .error (.error (.unknownEntity entity))) ∨
    ∃ schema, schemas.get entity = .record schema ∧ Schema.IsShaped schema ∧
      findSchema (.record schemas) entity = .ok (.record schema) := by
  have hentries : ((Value.record schemas).orElse (.record [])).entries = .ok schemas := by
    cases schemas <;> rfl
  have hget : schemas.get entity = .null ∨
      ∃ schema, schemas.get entity = .record schema ∧ Schema.IsShaped schema := by
    rw [Entries.get, Entries.get?]
    cases hentry : schemas.find? (·.1 == entity) with
    | none => exact .inl rfl
    | some e => exact h e (List.mem_of_find?_eq_some hentry)
  rcases hget with hnull | ⟨schema, hschema, hshaped⟩
  · refine .inl ⟨hnull, ?_⟩
    simp only [findSchema, hentries, Fetched.ofUse, Except.mapError, bind, Except.bind, hnull]
  · refine .inr ⟨schema, hschema, hshaped, ?_⟩
    simp only [findSchema, hentries, Fetched.ofUse, Except.mapError, bind, Except.bind, hschema]

/-- Schemas in shape give typed rows. -/
theorem givesTypedRows_ofSchemas {schemas : Entries} (h : AreShaped schemas) :
    (Source.ofSchemas (.record schemas)).GivesTypedRows := by
  intro entity
  rcases findSchema_of_areShaped h entity with ⟨-, hfind⟩ | ⟨schema, -, hshaped, hfind⟩
  · exact .inl ⟨_, bind_eq_error.2 (.inl hfind)⟩
  · refine .inr ⟨(Entries.get schema "fields").rows, bind_eq_ok.2 ⟨_, hfind, ?_⟩,
      hshaped.fields.forall_mem⟩
    rw [← hshaped.fields.orEmpty_eq]
    rfl

/-! ## Faults while building -/

/-- The computation ends with a fault just when `P` holds, and then at an endless number. -/
def FaultsWhen {α : Type} (x : Asking BuildError α) (P : Prop) : Prop :=
  ∀ f, x.outcome = .error (.fault f) ↔ f = .endless ∧ P

namespace FaultsWhen

variable {α β : Type} {P Q : Prop}

/-- When a computation faults may be said in other words. -/
theorem congr {x : Asking BuildError α} (h : FaultsWhen x P) (hPQ : P ↔ Q) : FaultsWhen x Q :=
  fun f => by rw [h f, hPQ]

/-- A computation that has an outcome never faults. -/
theorem of_ok {x : Asking BuildError α} {a : α} (h : x.outcome = .ok a) : FaultsWhen x False :=
  fun f => by simp [h]

/-- After a computation with a result, what follows decides. -/
theorem bind_of_ok {x : Asking BuildError α} {k : α → Asking BuildError β} {a : α}
    (ha : x.outcome = .ok a) (h : FaultsWhen (k a) P) : FaultsWhen (x >>= k) P := by
  intro f
  rw [Traced.outcome_bind_eq_error, ha]
  simpa using h f

/-- Of a use and what follows the first or the second ends with a fault. -/
theorem use_bind {r : Except Fault α} {k : α → Asking BuildError β} (h : OverflowsWhen r P)
    (hk : ∀ a, r = .ok a → FaultsWhen (k a) Q) : FaultsWhen (use r >>= k) (P ∨ Q) := by
  intro f
  rw [Traced.outcome_bind_eq_error, outcome_use_eq_error]
  simp only [outcome_use_eq_ok]
  cases r with
  | error g =>
    obtain ⟨rfl, hP⟩ := (h g).1 rfl
    simp [hP, eq_comm]
  | ok a =>
    have hP : ¬P := fun hP => absurd ((h .endless).2 ⟨rfl, hP⟩) (by simp)
    simp [hP, hk a rfl f]

/-- After a use with a result, what follows decides. -/
theorem use_bind_of_ok {r : Except Fault α} {k : α → Asking BuildError β} {a : α} (ha : r = .ok a)
    (h : FaultsWhen (k a) P) : FaultsWhen (use r >>= k) P :=
  bind_of_ok (outcome_use_eq_ok.2 ha) h

end FaultsWhen

/-- **Putting a contract together ends with a fault at an endless number** of a listed row, of a
rule, or of a state, if there is data at all. -/
theorem faultsWhen_assemble {source : Source} (hsource : source.GivesTypedRows) (entity : String)
    (preset : Preset) {raw : RawEntity} {rows : List Entries} {warnings : List Warning}
    (hrows : applyOverrides raw.fields raw.overrides = .ok (rows, warnings))
    (htyped : ∀ row ∈ rows, IsTyped row)
    (hscripts : AreRows (HasTexts ["script"]) raw.scripts)
    (hworkflow : raw.workflow.truthy = true → ∃ es, raw.workflow = .record es ∧ IsWorkflow es)
    (hnames : AreNames raw.permissions.keys)
    (htruthy : ∀ role ∈ raw.permissions.keys, role.truthy = true) :
    FaultsWhen (assemble source entity preset raw) (rows.filter isData ≠ [] ∧
      ((∃ row ∈ rows.filter isData, IsListedEndless row) ∨
        (∃ p ∈ raw.permissions, ∃ rule ∈ p.2, (Entries.get rule "permlevel").IsEndless) ∨
        IsTrackedEndless raw.workflow)) := by
  have hdata : ∀ row ∈ rows.filter isData, IsTyped row := fun row hrow =>
    htyped row (List.mem_of_mem_filter hrow)
  have hnamed : ∀ row ∈ rows.filter isData, isNamed row = true := fun row hrow =>
    (Bool.and_eq_true _ _ ▸ (List.mem_filter.1 hrow).2 : _ ∧ _).2
  obtain ⟨unnamed, hsplit⟩ := exists_splitRows 0 htyped
  obtain ⟨filters, hfilters⟩ := exists_listFilters hdata hnamed
  obtain ⟨sections, hsections⟩ := exists_formSections htyped
  obtain ⟨tables, htables⟩ := outcome_childTables_of_isTyped hsource hdata
  have hkeys : ∀ name ∈ (rows.filter isData).map (·.get "fieldname"), name.isKey = true := by
    intro name hname
    obtain ⟨row, hrow, rfl⟩ := List.mem_map.1 hname
    exact (hdata row hrow).isKey_name
  obtain ⟨found, hfound⟩ := exists_behaviors hscripts hkeys
  -- All that is read of texts has a result. What is left are the three uses of numbers, in the
  -- order in which they are made: the columns, the permissions and the workflow.
  refine .use_bind_of_ok hrows (.use_bind_of_ok hsplit ?_)
  simp only
  split
  · rename_i hempty
    intro f
    have hnil : rows.filter isData = [] := List.isEmpty_iff.1 hempty
    simp [Traced.fail, hnil]
  · rename_i hempty
    have hne : rows.filter isData ≠ [] := fun hnil => hempty (List.isEmpty_iff.2 hnil)
    have hlisted := overflowsWhen_listColumns fun row hrow =>
      (hdata row hrow).exists_name (hnamed row hrow)
    suffices hall : FaultsWhen _ ((∃ row ∈ rows.filter isData, IsListedEndless row) ∨
        (∃ p ∈ raw.permissions, ∃ rule ∈ p.2, (Entries.get rule "permlevel").IsEndless) ∨
        IsTrackedEndless raw.workflow) from hall.congr (by simp [hne])
    refine .use_bind hlisted fun columns _ => ?_
    refine .use_bind_of_ok hfilters (.use_bind_of_ok hsections (.bind_of_ok htables ?_))
    refine .use_bind (overflowsWhen_mergePermissions hnames htruthy) fun permissions _ => ?_
    suffices hlast : FaultsWhen _ (IsTrackedEndless raw.workflow ∨ False) from
      hlast.congr (by simp)
    refine .use_bind (overflowsWhen_readWorkflow hworkflow) fun read _ => ?_
    exact .use_bind_of_ok hfound (.of_ok rfl)

/-! ## Contracts from schemas -/

/-- What is asked about an entity whose schema is missing fails. -/
theorem outcome_askEntity_of_missing {schemas : Entries} {entity : String} {e : FetchError}
    (h : findSchema (.record schemas) entity = .error (.error e)) :
    (askEntity (.ofSchemas (.record schemas)) entity).outcome = .error (.fetch e) := by
  have hfetch : (Source.ofSchemas (.record schemas)).fetch .fieldList entity =
      .error (.error e) := bind_eq_error.2 (.inl h)
  refine Traced.outcome_bind_eq_error.2 (.inl ?_)
  rw [askPart, Traced.outcome_ask, hfetch]
  rfl

/-- The answers about an entity are the parts of its schema. -/
theorem outcome_askEntity_of_found {schemas schema : Entries} {entity : String}
    {grouped : Keyed (List Entries)}
    (h : findSchema (.record schemas) entity = .ok (.record schema))
    (hgrouped : Schema.permissions (.record schema) = .ok grouped) :
    (askEntity (.ofSchemas (.record schemas)) entity).outcome =
      .ok ⟨orEmpty (schema.get "fields"), Schema.overridesOf schema,
        orEmpty (schema.get "client_scripts"), (schema.get "workflow").orElse .null, grouped⟩ := by
  have hfetch : ∀ part v, Schema.fetch (.record schema) part = .ok v →
      (askPart (.ofSchemas (.record schemas)) part entity).outcome = .ok v := fun part v hv =>
    outcome_askPart_eq_ok.2 (bind_eq_ok.2 ⟨_, h, mapError_eq_ok.2 hv⟩)
  have hpermissions : (askPermissions (.ofSchemas (.record schemas)) entity).outcome =
      .ok grouped :=
    outcome_askPermissions_eq_ok.2 (bind_eq_ok.2 ⟨_, h, mapError_eq_ok.2 hgrouped⟩)
  -- The answers come in the order of the questions.
  refine Traced.outcome_bind_eq_ok.2 ⟨_, hfetch .fieldList _ rfl, ?_⟩
  refine Traced.outcome_bind_eq_ok.2 ⟨_, hfetch .overrides _ rfl, ?_⟩
  refine Traced.outcome_bind_eq_ok.2 ⟨_, hfetch .clientBehavior _ rfl, ?_⟩
  refine Traced.outcome_bind_eq_ok.2 ⟨_, hfetch .workflow _ rfl, ?_⟩
  exact Traced.outcome_bind_eq_ok.2 ⟨_, hpermissions, rfl⟩

/-- Putting together the contract of a schema in shape ends with a fault when the schema
overflows. -/
theorem faultsWhen_assemble_of_isShaped {source : Source} (hsource : source.GivesTypedRows)
    (entity : String) (preset : Preset) {schema : Entries} (h : Schema.IsShaped schema)
    {grouped : Keyed (List Entries)} (hnames : AreNames grouped.keys)
    (htruthy : ∀ role ∈ grouped.keys, role.truthy = true)
    (hrules : ∀ Q : Entries → Prop, (∃ p ∈ grouped, ∃ r ∈ p.2, Q r) ↔
      ∃ rule ∈ (schema.get "permissions").rows,
        (Entries.get rule "role").truthy = true ∧ Q rule) :
    FaultsWhen (assemble source entity preset ⟨orEmpty (schema.get "fields"),
      Schema.overridesOf schema, orEmpty (schema.get "client_scripts"),
      (schema.get "workflow").orElse .null, grouped⟩) (Schema.Overflows schema) := by
  obtain ⟨rows, warnings, hrows, htyped⟩ :=
    exists_applyOverrides h.fields.orEmpty (h.overrides.orElse h.setters).orEmpty
  have hworkflow : ((schema.get "workflow").orElse .null).truthy = true →
      ∃ raw, (schema.get "workflow").orElse .null = .record raw ∧ IsWorkflow raw := by
    unfold Value.orElse
    split
    · exact h.workflow
    · exact fun hnull => absurd hnull Bool.false_ne_true
  refine (faultsWhen_assemble hsource entity preset hrows htyped h.scripts.orEmpty hworkflow
    hnames htruthy).congr ?_
  -- The overrides have one result, so that the rows of both sides are the same.
  rw [hrules, isTrackedEndless_orElse]
  constructor
  · rintro ⟨hdata, hendless⟩
    exact ⟨rows, warnings, hrows, hdata, hendless⟩
  · rintro ⟨rows', warnings', hrows', hdata, hendless⟩
    obtain ⟨rfl, -⟩ := Prod.mk.inj (Except.ok.inj (hrows.symm.trans hrows'))
    exact ⟨hdata, hendless⟩

/-- **Building fails with a fault just where an endless number is read.** From schemas in shape,
whatever their other attributes hold, building a contract gives the contract or one of the declared
failures, except for a named entity in a known preset whose schema overflows: there an endless
number is met where a whole one is needed. -/
theorem build_eq_fault_iff {schemas : Entries} (h : AreShaped schemas) (entity : String)
    (wanted : Option String) (f : Fault) :
    Contract.build (.ofSchemas (.record schemas)) entity wanted = .error (.fault f) ↔
      f = .endless ∧ strip entity ≠ "" ∧ (∃ preset, resolvePreset wanted = .ok preset) ∧
        ∃ schema, schemas.get (strip entity) = .record schema ∧ Schema.Overflows schema := by
  suffices hasking : FaultsWhen (Contract.asking (.ofSchemas (.record schemas)) entity wanted)
      (strip entity ≠ "" ∧ (∃ preset, resolvePreset wanted = .ok preset) ∧
        ∃ schema, schemas.get (strip entity) = .record schema ∧ Schema.Overflows schema) from
    hasking f
  unfold Contract.asking
  simp only
  -- A blank name, an unknown preset and a missing schema fail in ways of their own.
  split
  · rename_i hblank
    intro f
    simp [Traced.fail, beq_iff_eq.1 hblank]
  rename_i hnamed
  have hne : strip entity ≠ "" := fun heq => hnamed (beq_iff_eq.2 heq)
  cases hpreset : resolvePreset wanted with
  | error e =>
    have hunknown : e = .unknownPreset (wanted.getD "None") := by
      unfold resolvePreset at hpreset
      split at hpreset
      · exact absurd hpreset (by simp)
      · exact (Except.error.inj hpreset).symm
    intro f
    rw [Traced.outcome_bind_eq_error, Traced.outcome_ofExcept]
    simp [hunknown]
  | ok preset =>
    refine .bind_of_ok (a := preset) rfl ?_
    rcases findSchema_of_areShaped h (strip entity) with
      ⟨hnull, hfind⟩ | ⟨schema, hschema, hshaped, hfind⟩
    · have hmissing := outcome_askEntity_of_missing hfind
      intro f
      rw [Traced.outcome_bind_eq_error, hmissing, hnull]
      simp
    · obtain ⟨grouped, hgrouped, hnames, htruthy, hrules⟩ := exists_permissions hshaped
      have hassemble := faultsWhen_assemble_of_isShaped (givesTypedRows_ofSchemas h)
        (strip entity) preset hshaped hnames htruthy hrules
      refine (FaultsWhen.bind_of_ok (outcome_askEntity_of_found hfind hgrouped) hassemble).congr ?_
      simp [hne, hschema]

/-- A title that is listed at an endless index. -/
def endlessTitle : Entries :=
  [("fieldname", .text "title"), ("fieldtype", .text "Data"), ("in_list_view", .int 1),
    ("idx", .real (.infinite false))]

/-- A note with this title has no contract, and no declared failure either. -/
theorem build_eq_fault_title :
    AreShaped [("Note", .record [("fields", .list [.record endlessTitle])])] ∧
    Contract.build (.ofSchemas (.record
      [("Note", .record [("fields", .list [.record endlessTitle])])])) "Note" (some "plain") =
      .error (.fault .endless) := by
  have hnone : ∀ (P : Entries → Prop), AreRows P .null := fun P htruthy =>
    absurd htruthy Bool.false_ne_true
  have htitle : IsTyped endlessTitle := by
    rintro e he hkey
    simp only [endlessTitle, List.mem_cons, List.not_mem_nil, or_false] at he
    rcases he with rfl | rfl | rfl | rfl
    · exact .inr ⟨_, rfl⟩
    · exact .inr ⟨_, rfl⟩
    · exact absurd hkey (by decide)
    · exact absurd hkey (by decide)
  have hshaped : AreShaped [("Note", .record [("fields", .list [.record endlessTitle])])] := by
    refine List.forall_mem_singleton.2 (.inr ⟨_, rfl, ?_⟩)
    exact ⟨fun _ => ⟨[endlessTitle], rfl, List.forall_mem_singleton.2 htitle⟩, hnone _, hnone _,
      hnone _, hnone _, fun htruthy => absurd htruthy Bool.false_ne_true⟩
  refine ⟨hshaped, (build_eq_fault_iff hshaped "Note" (some "plain") .endless).2 ?_⟩
  refine ⟨rfl, by decide, ⟨.plain, by decide⟩, _, rfl, [endlessTitle], [], rfl, by decide, .inl ?_⟩
  exact ⟨endlessTitle, List.mem_singleton_self _, by decide, false, rfl⟩

end FormScaffold
