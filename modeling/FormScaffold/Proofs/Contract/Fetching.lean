import FormScaffold.Proofs.Contract.Assembling
import FormScaffold.Proofs.Value.Likeness

/-! # Fetching child entities

While a contract is built the source is asked the five questions about the entity itself and then
for the fields of each child entity once, at the first table field that names it. What is found is
kept until the contract is done, also that nothing was found. Table fields inside a child entity are
fields like others, so that entities which name each other, or themselves, are no matter.

* `log_bind` — what is asked by two steps;
* `newNames` — the child entities that are not known yet, each once;
* **`log_childTables`** — these are the ones that are asked for;
* `Source.fragment`, `eq_fragment_of_tableOf` — the table of a child entity does not depend on the
  table field;
* **`fetches_of_build`** — what is asked while a contract is built, and the child tables that it
  has. -/

namespace FormScaffold

open Text

/-! ## What is asked -/

/-- The question for the fields of an entity. -/
def fieldsCall (entity : String) : Call := ⟨.fieldList, entity⟩

/-- Of two steps that give a result the second one asks after the first. -/
theorem exists_of_outcome_bind {τ ε α β : Type} {x : Traced τ ε α} {f : α → Traced τ ε β} {b : β}
    (h : (x >>= f).outcome = .ok b) :
    ∃ a, x.outcome = .ok a ∧ (f a).outcome = .ok b ∧ (x >>= f).log = x.log ++ (f a).log := by
  obtain ⟨a, ha, hb⟩ := Traced.outcome_bind_eq_ok.1 h
  exact ⟨a, ha, hb, by rw [Traced.bind_of_ok f ha]⟩

/-- Using raw metadata asks for nothing. -/
theorem exists_of_outcome_use_bind {α β : Type} {r : Except Fault α} {f : α → Asking BuildError β}
    {b : β} (h : (use r >>= f).outcome = .ok b) :
    ∃ a, r = .ok a ∧ (f a).outcome = .ok b ∧ (use r >>= f).log = (f a).log := by
  obtain ⟨a, ha, hb, hlog⟩ := exists_of_outcome_bind h
  exact ⟨a, outcome_use_eq_ok.1 ha, hb, hlog⟩

/-! ## Child entities that are known -/

section Known

variable {children : Children} {child : String}

/-- A child entity is unknown when it was unknown before and is not the one that became known. -/
theorem isNone_find?_concat (other : String) (raw : Option Value) :
    (Children.find? (children ++ [(child, raw)]) other).isNone =
      ((children.find? other).isNone && other != child) := by
  unfold Children.find?
  rw [List.find?_append]
  cases List.find? (·.1 == other) children with
  | some p => rfl
  | none =>
    by_cases hsame : child = other
    · simp [hsame]
    · simp [hsame, Ne.symm hsame]

/-- The names among the given ones that are not known yet, each where it comes first. -/
def newNames (children : Children) (names : List String) : List String :=
  (names.filter fun name => (children.find? name).isNone).eraseDups

/-- A name that is known is not new. -/
theorem newNames_cons_of_some {raw : Option Value} (h : children.find? child = some raw)
    (names : List String) : newNames children (child :: names) = newNames children names := by
  unfold newNames
  rw [List.filter_cons, h]
  rfl

/-- A name that is new is known from then on. -/
theorem newNames_cons_of_none (h : children.find? child = none) (raw : Option Value)
    (names : List String) :
    newNames children (child :: names) =
      child :: newNames (children ++ [(child, raw)]) names := by
  unfold newNames
  rw [List.filter_cons, h, if_pos Option.isNone_none, List.eraseDups_cons, List.filter_filter]
  congr 2
  -- Leaving out the name and leaving out what is known comes to the same in either order.
  refine List.filter_congr fun other _ => ?_
  rw [isNone_find?_concat, Bool.and_comm]
  rfl

/-- At first no child entity is known. -/
theorem newNames_nil (names : List String) : newNames [] names = names.eraseDups := by
  have hall : names.filter (fun name => (Children.find? [] name).isNone) = names :=
    List.filter_eq_self.2 fun _ _ => rfl
  rw [newNames, hall]

variable {source : Source}

/-- **A child entity is asked for when it is not known**, and it is known afterwards. The child
entities that are known are those that were asked for while the same contract was built, so that no
source is asked twice for one. -/
theorem of_findChild {field : Value} {raw : Option Value} {known : Children}
    {warnings : List Warning}
    (h : (findChild source children child field).outcome = .ok (raw, known, warnings)) :
    (children.find? child = some raw ∧ known = children ∧
        (findChild source children child field).log = []) ∨
      (children.find? child = none ∧ known = children ++ [(child, raw)] ∧
        (findChild source children child field).log = [fieldsCall child]) := by
  unfold findChild at h ⊢
  split at h
  · rename_i found hfound
    cases h
    exact .inl ⟨hfound, rfl, rfl⟩
  · rename_i hnone
    refine .inr ⟨hnone, ?_⟩
    obtain ⟨answer, -, h, hlog⟩ := exists_of_outcome_bind h
    rw [hlog]
    cases answer with
    | ok v =>
      cases h
      exact ⟨rfl, rfl⟩
    | error e =>
      -- That the entity cannot be fetched is remembered as well.
      cases h
      exact ⟨rfl, rfl⟩

/-- **The child entities that are asked for** while the child tables are made are those of the table
fields which are not known, each once, in the order in which they are named first. -/
theorem log_childTables {rows : List Entries} {tables : Keyed ChildTable}
    {made : Keyed ChildTable × List Warning}
    (h : (childTables source children tables rows).outcome = .ok made) :
    (childTables source children tables rows).log =
      (newNames children ((tableFields rows).map (·.2))).map fieldsCall := by
  -- The induction is on the rows, while the entities that are known become more.
  induction rows generalizing children tables made with
  | nil => rfl
  | cons row rows ih =>
    obtain ⟨isTable, htype⟩ := hasType_of_childTables h
    obtain ⟨-, rfl⟩ := hasType_eq_ok.1 htype
    rw [tableFields_cons]
    cases htable : isAmong tableTypes (row.get "fieldtype") with
    | false =>
      rw [htable] at htype
      rw [childTables_of_other htype] at h ⊢
      exact ih h
    | true =>
      rw [htable] at htype
      cases hchild : (row.get "options").label? with
      | none =>
        -- A table field that names no entity asks for nothing.
        rw [childTables_of_unnamed htype hchild] at h ⊢
        obtain ⟨later, hlater, -, hlog⟩ := exists_of_outcome_bind h
        rw [hlog, ih hlater]
        exact List.append_nil _
      | some child =>
        rw [childTables_of_child htype hchild] at h ⊢
        obtain ⟨⟨raw, known, asked⟩, hfound, h, hfirst⟩ := exists_of_outcome_bind h
        obtain ⟨⟨table, described⟩, -, h, hdescribe⟩ := exists_of_outcome_use_bind h
        obtain ⟨key, -, h, hkey⟩ := exists_of_outcome_use_bind h
        obtain ⟨later, hlater, -, hlog⟩ := exists_of_outcome_bind h
        simp only at hdescribe hkey hlog
        rw [hfirst, hdescribe, hkey, hlog, ih hlater]
        -- Either the child is known, or it is asked for here and known to the rows that follow.
        rcases of_findChild hfound with ⟨hknown, rfl, hnone⟩ | ⟨hnew, rfl, hasked⟩
        · rw [hnone, List.map_cons, newNames_cons_of_some hknown]
          exact List.append_nil _
        · rw [hasked, List.map_cons, newNames_cons_of_none hnew raw, List.map_cons]
          exact congrArg (fieldsCall child :: ·) (List.append_nil _)

end Known

/-! ## Building a contract -/

/-- The five questions about an entity, in the order in which they are asked. -/
def ownCalls (entity : String) : List Call :=
  [fieldsCall entity, ⟨.overrides, entity⟩, ⟨.clientBehavior, entity⟩, ⟨.workflow, entity⟩,
    ⟨.permissions, entity⟩]

section Built

variable {source : Source} {entity : String}

/-- What an entity is built from is the answers of the source, each asked for once. -/
theorem of_askEntity {raw : RawEntity} (h : (askEntity source entity).outcome = .ok raw) :
    source.fetch .fieldList entity = .ok raw.fields ∧
      source.fetch .overrides entity = .ok raw.overrides ∧
      (askEntity source entity).log = ownCalls entity := by
  obtain ⟨fields, hfields, h, hlog⟩ := exists_of_outcome_bind h
  obtain ⟨overrides, hoverrides, h, hlog₂⟩ := exists_of_outcome_bind h
  obtain ⟨scripts, -, h, hlog₃⟩ := exists_of_outcome_bind h
  obtain ⟨workflow, -, h, hlog₄⟩ := exists_of_outcome_bind h
  obtain ⟨permissions, -, h, hlog₅⟩ := exists_of_outcome_bind h
  cases h
  refine ⟨outcome_askPart_eq_ok.1 hfields, outcome_askPart_eq_ok.1 hoverrides, ?_⟩
  exact hlog.trans (by rw [hlog₂, hlog₃, hlog₄, hlog₅]; rfl)

/-- **The rows of an entity after its overrides**, as the source gives them. -/
def Source.HasRows (source : Source) (entity : String) (rows : List Entries) : Prop :=
  ∃ fields overrides warnings, source.fetch .fieldList entity = .ok fields ∧
    source.fetch .overrides entity = .ok overrides ∧
    applyOverrides fields overrides = .ok (rows, warnings)

/-- What the source gives decides the rows. -/
theorem Source.HasRows.unique {rows rows' : List Entries} (h : source.HasRows entity rows)
    (h' : source.HasRows entity rows') : rows = rows' := by
  obtain ⟨fields, overrides, warnings, hfields, hoverrides, hrows⟩ := h
  obtain ⟨fields', overrides', warnings', hfields', hoverrides', hrows'⟩ := h'
  obtain rfl := Except.ok.inj (hfields.symm.trans hfields')
  obtain rfl := Except.ok.inj (hoverrides.symm.trans hoverrides')
  exact (Prod.mk.inj (Except.ok.inj (hrows.symm.trans hrows'))).1

/-- The rows of an entity that is described are those that the source gives it after its overrides.
-/
theorem exists_hasRows {raw : RawEntity} {own : OwnParts}
    (hraw : (askEntity source entity).outcome = .ok raw) (h : ownParts raw = .ok own) :
    ∃ rows, source.HasRows entity rows ∧ own.rows = rows.filter isData := by
  obtain ⟨hfields, hoverrides, -⟩ := of_askEntity hraw
  obtain ⟨rows, overrideWarnings, unnamed, sectionWarnings, hrows, hdata, -⟩ :=
    exists_of_ownParts h
  exact ⟨rows, ⟨_, _, _, hfields, hoverrides, hrows⟩, filter_of_splitRows hdata⟩

/-- Putting a contract together asks for what making its child tables asks for. -/
theorem log_assemble {preset : Preset} {raw : RawEntity} {own : OwnParts} {c : Contract}
    (hown : ownParts raw = .ok own) (h : (assemble source entity preset raw).outcome = .ok c) :
    (assemble source entity preset raw).log = (childTables source [] [] own.rows).log := by
  obtain ⟨rows, overrideWarnings, unnamed, sectionWarnings, hrows, hdata, -⟩ :=
    exists_of_ownParts hown
  obtain ⟨found, hfound, h, hlog₁⟩ := exists_of_outcome_use_bind h
  obtain rfl := Except.ok.inj (hrows.symm.trans hfound)
  obtain ⟨split, hsplit, h, hlog₂⟩ := exists_of_outcome_use_bind h
  obtain rfl := Except.ok.inj (hdata.symm.trans hsplit)
  simp only at h hlog₂
  by_cases hempty : own.rows.isEmpty = true
  · rw [if_pos hempty] at h
    exact absurd h (by simp [Traced.fail])
  rw [if_neg hempty] at h hlog₂
  obtain ⟨columns, -, h, hlog₃⟩ := exists_of_outcome_use_bind h
  obtain ⟨filters, -, h, hlog₄⟩ := exists_of_outcome_use_bind h
  obtain ⟨sections, -, h, hlog₅⟩ := exists_of_outcome_use_bind h
  obtain ⟨⟨tables, warned⟩, -, h, hlog₆⟩ := exists_of_outcome_bind h
  obtain ⟨permissions, -, h, hlog₇⟩ := exists_of_outcome_use_bind h
  obtain ⟨workflow, -, h, hlog₈⟩ := exists_of_outcome_use_bind h
  obtain ⟨behaviors, -, h, hlog₉⟩ := exists_of_outcome_use_bind h
  -- All other steps only use what is there.
  refine hlog₁.trans (hlog₂.trans ?_)
  rw [hlog₃, hlog₄, hlog₅, hlog₆]
  simp only
  rw [hlog₇, hlog₈, hlog₉]
  exact List.append_nil _

/-- **What building a contract asks for**: the five questions about the entity, and then each child
entity of its table fields once. -/
theorem exists_of_asking {wanted : Option String} {c : Contract}
    (h : Contract.build source entity wanted = .ok c) :
    ∃ own warnings, source.ownParts (strip entity) = .ok own ∧
      (∃ rows, source.HasRows (strip entity) rows ∧ own.rows = rows.filter isData) ∧
      (childTables source [] [] own.rows).outcome = .ok (c.childTables, warnings) ∧
      (Contract.asking source entity wanted).log = ownCalls (strip entity) ++
        ((tableFields own.rows).map (·.2)).eraseDups.map fieldsCall := by
  have hne : ¬(strip entity == "") = true := by
    rw [beq_iff_eq]
    exact (build_eq_ok.1 h).1
  unfold Contract.build at h
  unfold Contract.asking at h ⊢
  simp only [if_neg hne] at h ⊢
  obtain ⟨preset, -, h, hlog⟩ := exists_of_outcome_bind h
  obtain ⟨raw, hraw, h, hlog'⟩ := exists_of_outcome_bind h
  obtain ⟨-, -, hask⟩ := of_askEntity hraw
  obtain ⟨own, tables, warnings, hown, -, htables, rfl⟩ := outcome_assemble_eq_ok.1 h
  refine ⟨own, warnings, bind_eq_ok.2 ⟨raw, hraw, mapError_eq_ok.2 hown⟩,
    exists_hasRows hraw hown, htables, ?_⟩
  rw [hlog, hlog', hask, log_assemble hown h, log_childTables htables, newNames_nil]
  rfl

end Built

/-! ## Tables of child entities -/

/-- Where an expression is found does not decide whether it can be read. -/
theorem fst_checkCondition_eq (row : Entries) (owner owner' : String) (d : Dependency) :
    (checkCondition row owner d).1 = (checkCondition row owner' d).1 := by
  unfold checkCondition
  split
  · rfl
  · split <;> rfl

/-- What stands before the name of a field in messages is not part of the field. -/
theorem describe_eq_describe (row : Entries) (column : Nat) (prior prior' : String) :
    Field.describe row column prior = Field.describe row column prior' := by
  have hconditions : checkedConditions row (ownerOf prior row) =
      checkedConditions row (ownerOf prior' row) := by
    unfold checkedConditions
    rw [fst_checkCondition_eq row _ (ownerOf prior' row) .shown,
      fst_checkCondition_eq row _ (ownerOf prior' row) .mandatory,
      fst_checkCondition_eq row _ (ownerOf prior' row) .readOnly]
  unfold Field.describe
  rw [hconditions]

/-- **The field that a child entity has from a row of its own.** -/
def IsChildField (row : Entries) (f : Field) : Prop := Field.describe row 0 "" = .ok f

/-- **The table of a child entity**: a field for each of its own data rows. -/
def Source.fragment (source : Source) (child : String) : ChildTable where
  entity := child
  fields := (source.childRows child).filterMap fun row => (Field.describe row 0 "").toOption
  resolved := (source.fetch .fieldList child).isOk

/-- The fields that rows describe are those that can be described. -/
theorem filterMap_of_isChildField {rows : List Entries} {fields : List Field}
    (h : List.Forall₂ IsChildField rows fields) :
    rows.filterMap (fun row => (Field.describe row 0 "").toOption) = fields := by
  induction h with
  | nil => rfl
  | cons hf _ ih =>
    rw [List.filterMap_cons, hf, ih]
    rfl

/-- The fields that are described are those of the child entity, whichever table field they are
described for. -/
theorem exists_isChildField {prior : String} {v : Value} {fields : List Field}
    {warnings : List Warning} (h : describeChild prior v = .ok (fields, warnings)) :
    ∃ rows, rawRows v = .ok rows ∧ List.Forall₂ IsChildField (rows.filter isData) fields := by
  obtain ⟨rows, hrows, hfields, -⟩ := exists_of_describeChild h
  exact ⟨rows, hrows, hfields.imp fun row f hf => (describe_eq_describe row 0 "" prior).trans hf⟩

section Tables

variable {source : Source} {t : Value × String} {p : Value × ChildTable} {warnings : List Warning}
  (h : tableOf source t = .ok (p, warnings))

include h

/-- A table of an entity that the source gives has the fields of that entity. -/
theorem exists_isChildField_of_tableOf {v : Value} (hv : source.fetch .fieldList t.2 = .ok v) :
    ∃ rows, rawRows v = .ok rows ∧ List.Forall₂ IsChildField (rows.filter isData) p.2.fields := by
  obtain ⟨raw, hraw, h⟩ := bind_eq_ok.1 h
  rw [hv] at hraw
  obtain rfl : some v = raw := Except.ok.inj hraw
  obtain ⟨⟨table, described⟩, htable, h⟩ := bind_eq_ok.1 h
  cases h
  obtain ⟨⟨fields, warned⟩, hdescribed, htable⟩ := bind_eq_ok.1 htable
  cases htable
  exact exists_isChildField hdescribed

/-- **The table of a table field is that of its child entity**, whatever the field is. Two table
fields of one child entity have the same table, but for the text before names in the messages about
it. -/
theorem eq_fragment_of_tableOf : p = (t.1, source.fragment t.2) := by
  obtain ⟨hname, hentity, hfields, hresolved, -⟩ := made_of_tableOf h
  have hsame : p.2.fields = (source.fragment t.2).fields := by
    cases hv : source.fetch .fieldList t.2 with
    | ok v =>
      obtain ⟨rows, hrows, hdescribed⟩ := exists_isChildField_of_tableOf h hv
      have hchild : source.childRows t.2 = rows.filter isData := by
        rw [Source.childRows, hv]
        simp only [hrows]
      rw [Source.fragment, hchild, filterMap_of_isChildField hdescribed]
    | error e =>
      -- Nothing is known of the entity, so that the table has no fields.
      have hchild : source.childRows t.2 = [] := by rw [Source.childRows, hv]
      rw [hchild] at hfields
      rw [Source.fragment, hchild, List.forall₂_nil_left_iff.1 hfields]
      rfl
  obtain ⟨name, entity, fields, resolved⟩ := p
  simp only at hname hentity hresolved hsame
  rw [hname, hentity, hresolved, hsame]
  rfl

end Tables

/-- **Child entities are fetched once and no deeper.** While a contract is built the source is asked
the five questions about the entity and then for the fields of every child entity that a table field
of the entity names after its overrides, each once and in the order in which they are named first,
and for nothing else, whatever the fields of these entities name in turn. The child tables stand
under the names of the table fields; which table it is depends on the child entity alone, and when
the source gives the entity, the table has one field for each of its own data rows, in order. -/
theorem fetches_of_build {source : Source} {entity : String} {wanted : Option String}
    {c : Contract} (h : Contract.build source entity wanted = .ok c) :
    ∃ rows, source.HasRows (strip entity) rows ∧
      (Contract.asking source entity wanted).log = ownCalls (strip entity) ++
        ((tableFields (rows.filter isData)).map (·.2)).eraseDups.map fieldsCall ∧
      c.childTables = Keyed.ofList
        ((tableFields (rows.filter isData)).map fun t => (t.1, source.fragment t.2)) ∧
      (∀ key ∈ c.childTables.keys, ∃ t ∈ tableFields (rows.filter isData), t.1 = key) ∧
      ∀ t ∈ tableFields (rows.filter isData),
        (∃ key ∈ c.childTables.keys, IsAlike key t.1) ∧
        ∀ v, source.fetch .fieldList t.2 = .ok v → ∃ childRows, rawRows v = .ok childRows ∧
          List.Forall₂ IsChildField (childRows.filter isData) (source.fragment t.2).fields := by
  obtain ⟨own, warnings, hown, ⟨rows, hrows, hfilter⟩, htables, hlog⟩ := exists_of_asking h
  obtain ⟨made, hmade, hput, -⟩ := exists_made_of_childTables hown htables
  rw [hfilter] at hmade hlog
  have hall := mapM_eq_ok.1 hmade
  -- The tables that were made are those of the child entities, whatever table field asked for them.
  have htable : made.map (·.1) =
      (tableFields (rows.filter isData)).map fun t => (t.1, source.fragment t.2) :=
    map_eq_map_of_forall₂ (hall.imp fun t p hp => eq_fragment_of_tableOf hp)
  rw [htable] at hput
  refine ⟨rows, hrows, hlog, hput, ?_, fun t ht => ⟨?_, fun v hv => ?_⟩⟩
  · intro key hkey
    obtain ⟨p, hp, rfl⟩ := List.mem_map.1 hkey
    rw [hput] at hp
    obtain ⟨⟨q, hq, hname⟩, -⟩ := Keyed.exists_of_mem_ofList hp
    obtain ⟨t, ht, rfl⟩ := List.mem_map.1 hq
    exact ⟨t, ht, hname⟩
  · obtain ⟨p, hp, halike⟩ := Keyed.exists_isAlike_ofList (List.mem_map_of_mem ht)
    rw [← hput] at hp
    exact ⟨p.1, List.mem_map_of_mem hp, halike⟩
  · obtain ⟨p, -, hp⟩ := exists_of_mem_forall₂ hall.flip ht
    have hfields := exists_isChildField_of_tableOf hp hv
    rwa [eq_fragment_of_tableOf hp] at hfields

/-- Orders with items and with orders of their own, and items that name orders in turn. One table
field comes to name a child entity that does not exist by an override. -/
def linkedOrders : Source :=
  .ofSchemas (.record [
    ("Order", .record [
      ("fields", .list [
        .record [("fieldname", .text "items"), ("fieldtype", .text "Table"),
          ("options", .text "Item")],
        .record [("fieldname", .text "parts"), ("fieldtype", .text "Table MultiSelect"),
          ("options", .text "Order")],
        .record [("fieldname", .text "extras"), ("fieldtype", .text "Table"),
          ("options", .text " Item ")],
        .record [("fieldname", .text "notes"), ("fieldtype", .text "Table")]]),
      ("overrides", .list [.record [("fieldname", .text "notes"), ("options", .text "Note")]])]),
    ("Item", .record [
      ("fields", .list [
        .record [("fieldname", .text "order"), ("fieldtype", .text "Table"),
          ("options", .text "Order")]])])])

/-- Three child entities are asked for, of which two fields share one. -/
theorem fetches_of_build_orders :
    ∃ c, Contract.build linkedOrders "Order" (some "plain") = .ok c ∧
      (Contract.asking linkedOrders "Order" (some "plain")).log =
        ownCalls "Order" ++ ["Item", "Order", "Note"].map fieldsCall ∧
      c.childTables = Keyed.ofList [(.text "items", linkedOrders.fragment "Item"),
        (.text "parts", linkedOrders.fragment "Order"),
        (.text "extras", linkedOrders.fragment "Item"),
        (.text "notes", linkedOrders.fragment "Note")] := by
  obtain ⟨c, hc, -⟩ := exists_of_map_toOption
    (show (Contract.build linkedOrders "Order" (some "plain")).toOption.map (fun _ => ()) =
      some () by decide +kernel)
  obtain ⟨rows, hrows, hlog, htables, -⟩ := fetches_of_build hc
  have hname : strip "Order" = "Order" := by decide
  -- The rows after the override are worked out, and they are the only ones.
  have hfields : ∃ rows', linkedOrders.HasRows (strip "Order") rows' ∧
      tableFields (rows'.filter isData) = [(.text "items", "Item"), (.text "parts", "Order"),
        (.text "extras", "Item"), (.text "notes", "Note")] := ⟨_, ⟨_, _, _, rfl, rfl, rfl⟩, rfl⟩
  obtain ⟨rows', hrows', hfields⟩ := hfields
  obtain rfl := hrows.unique hrows'
  rw [hfields] at hlog htables
  rw [hname] at hlog
  exact ⟨c, hc, hlog, htables⟩

end FormScaffold
