import FormScaffold.Proofs.Contract.Rows
import FormScaffold.Proofs.Contract.Transitions

/-! # Child tables

Each table field that names a child entity has a child table, made from what the source gives for
that entity and from nothing else: that an entity is asked for only once changes neither the tables
nor whether they can be made.

* `tableFields`, `tableOf` — the table fields among the rows, and the table of one of them;
* `childTables_of_other`, `childTables_of_unnamed`, `childTables_of_child` — what one row adds to
  the child tables of the others;
* **`outcome_childTables_of_ok`** — when every table can be made, the child tables are these, put
  under their names one by one; a child entity that is not given leaves a warning;
* `outcome_childTables_of_error` — else their making ends with the first fault. -/

namespace FormScaffold

/-! ## Tables of single fields -/

/-- The table fields among the rows that name a child entity, by their own names. -/
def tableFields (rows : List Entries) : List (Value × String) :=
  rows.filterMap fun row =>
    if isAmong tableTypes (row.get "fieldtype") then
      (row.get "options").label?.map fun child => (row.get "fieldname", child)
    else none

/-- What is kept of fetching the fields of a child entity: of an error nothing, while a fault
stays one. -/
def keptOf : Fetched Value → Except Fault (Option Value)
  | .ok v => .ok (some v)
  | .error (.error _) => .ok none
  | .error (.fault f) => .error f

/-- The child table of a table field under its name, and the warnings about its fields. -/
def tableOf (source : Source) (t : Value × String) :
    Except Fault ((Value × ChildTable) × List Warning) := do
  let raw ← keptOf (source.fetch .fieldList t.2)
  let (table, warnings) ← childTable t.1 t.2 raw
  return ((t.1, table), warnings)

/-- The data rows of a child entity, when the source gives its fields. -/
def Source.childRows (source : Source) (child : String) : List Entries :=
  match source.fetch .fieldList child with
  | .ok v =>
    match rawRows v with
    | .ok rows => rows.filter isData
    | .error _ => []
  | .error _ => []

/-- **A table of a table field under its name.** It has one field for each data row of the child
entity, and it is resolved when the source gives them. -/
structure Tabulates (source : Source) (t : Value × String) (p : Value × ChildTable) : Prop where
  name : p.1 = t.1
  entity : p.2.entity = t.2
  fields : List.Forall₂ Describes (source.childRows t.2) p.2.fields
  resolved : p.2.resolved = (source.fetch .fieldList t.2).isOk

variable {source : Source}

/-- A table that cannot be made has no child entity, or one that cannot be described. -/
theorem tableOf_eq_error {t : Value × String} {f : Fault} :
    tableOf source t = .error f ↔ keptOf (source.fetch .fieldList t.2) = .error f ∨
      ∃ raw, keptOf (source.fetch .fieldList t.2) = .ok raw ∧
        childTable t.1 t.2 raw = .error f := by
  unfold tableOf
  rw [bind_eq_error]
  refine or_congr_right (exists_congr fun raw => and_congr_right fun _ => ?_)
  cases childTable t.1 t.2 raw <;> simp [bind, Except.bind, pure, Except.pure]

/-- A table can be made unless a fault keeps the fields of its entity from being fetched or from
being described. -/
theorem exists_tableOf_iff {t : Value × String} :
    (∃ made, tableOf source t = .ok made) ↔
      (∀ f, source.fetch .fieldList t.2 ≠ .error (.fault f)) ∧
      ∀ v, source.fetch .fieldList t.2 = .ok v →
        ∃ described, describeChild (t.1.display ++ ".") v = .ok described := by
  unfold tableOf
  cases hfetch : source.fetch .fieldList t.2 with
  | ok v =>
    constructor
    · rintro ⟨made, h⟩
      refine ⟨fun f => by simp, fun w hw => ?_⟩
      obtain ⟨raw, hraw, h⟩ := bind_eq_ok.1 h
      obtain rfl : some v = raw := Except.ok.inj hraw
      obtain ⟨⟨table, warnings⟩, htable, -⟩ := bind_eq_ok.1 h
      obtain ⟨described, hdescribed, -⟩ := bind_eq_ok.1 htable
      rw [← Except.ok.inj hw]
      exact ⟨described, hdescribed⟩
    · rintro ⟨-, h⟩
      obtain ⟨described, hdescribed⟩ := h v rfl
      have htable : childTable t.1 t.2 (some v) = .ok (⟨t.2, described.1, true⟩, described.2) :=
        bind_eq_ok.2 ⟨described, hdescribed, rfl⟩
      exact ⟨_, bind_eq_ok.2 ⟨some v, rfl, bind_eq_ok.2 ⟨_, htable, rfl⟩⟩⟩
  -- An entity that is not there makes a table without fields; only a fault stops.
  | error e =>
    cases e with
    | error e => exact iff_of_true ⟨_, rfl⟩ ⟨fun f => by simp, fun v => by simp⟩
    | fault f =>
      refine iff_of_false ?_ fun h => h.1 f rfl
      rintro ⟨made, h⟩
      exact absurd h (by simp [keptOf, bind, Except.bind])

/-- The table that is made for a table field is that of its child entity. -/
theorem made_of_tableOf {t : Value × String} {p : Value × ChildTable}
    {warnings : List Warning} (h : tableOf source t = .ok (p, warnings)) :
    p.1 = t.1 ∧ p.2.entity = t.2 ∧ List.Forall₂ IsMade (source.childRows t.2) p.2.fields ∧
      p.2.resolved = (source.fetch .fieldList t.2).isOk ∧
      warnings.filterMap Warning.dropped? =
        (source.childRows t.2).flatMap (unreadable (t.1.display ++ ".")) := by
  obtain ⟨raw, hraw, h⟩ := bind_eq_ok.1 h
  obtain ⟨⟨table, described⟩, htable, h⟩ := bind_eq_ok.1 h
  cases h
  cases hfetch : source.fetch .fieldList t.2 with
  | ok v =>
    rw [hfetch] at hraw
    obtain rfl : some v = raw := Except.ok.inj hraw
    obtain ⟨⟨fields, warned⟩, hdescribed, htable⟩ := bind_eq_ok.1 htable
    cases htable
    obtain ⟨rows, hrows, hfields, hdropped⟩ := exists_of_describeChild hdescribed
    -- The fields described are those of the data rows that the source gives.
    have hchild : source.childRows t.2 = rows.filter isData := by
      rw [Source.childRows, hfetch]
      simp only [hrows]
    rw [← hchild] at hfields hdropped
    exact ⟨rfl, rfl, hfields.imp fun _ _ hf => ⟨_, _, hf⟩, rfl, hdropped⟩
  | error e =>
    have hchild : source.childRows t.2 = [] := by rw [Source.childRows, hfetch]
    cases e with
    | error e =>
      rw [hfetch] at hraw
      obtain rfl : none = raw := Except.ok.inj hraw
      cases htable
      rw [hchild]
      exact ⟨rfl, rfl, .nil, rfl, rfl⟩
    | fault f =>
      rw [hfetch] at hraw
      exact absurd hraw (by simp [keptOf])

/-- The table that is made for a table field is that of its child entity, and its warnings name the
conditions of the child rows that cannot be read. -/
theorem tabulates_of_tableOf {t : Value × String} {p : Value × ChildTable}
    {warnings : List Warning} (h : tableOf source t = .ok (p, warnings)) :
    Tabulates source t p ∧ warnings.filterMap Warning.dropped? =
      (source.childRows t.2).flatMap (unreadable (t.1.display ++ ".")) := by
  obtain ⟨hname, hentity, hfields, hresolved, hdropped⟩ := made_of_tableOf h
  exact ⟨⟨hname, hentity, hfields.imp fun _ _ => IsMade.describes, hresolved⟩, hdropped⟩

/-! ## Answers that are kept -/

/-- The answers that are kept are those of the source. -/
def Children.IsAnswered (source : Source) (children : Children) : Prop :=
  ∀ p ∈ children, keptOf (source.fetch .fieldList p.1) = .ok p.2

namespace Children.IsAnswered

variable {children : Children} (h : children.IsAnswered source)

include h

/-- An answer that was found before is that of the source. -/
theorem of_find? {child : String} {raw : Option Value} (hfound : children.find? child = some raw) :
    keptOf (source.fetch .fieldList child) = .ok raw := by
  obtain ⟨p, hp, rfl⟩ := Option.map_eq_some_iff.1 hfound
  have hkey := List.find?_some hp
  obtain rfl : p.1 = child := beq_iff_eq.1 hkey
  exact h p (List.mem_of_find?_eq_some hp)

/-- An answer of the source that is kept leaves all answers those of the source. -/
theorem concat {child : String} {raw : Option Value}
    (hraw : keptOf (source.fetch .fieldList child) = .ok raw) :
    IsAnswered source (children ++ [(child, raw)]) := by
  intro p hp
  rcases List.mem_append.1 hp with hp | hp
  · exact h p hp
  · obtain rfl := List.mem_singleton.1 hp
    exact hraw

end Children.IsAnswered

/-- A child entity that is neither known nor asked for is not known afterwards. -/
theorem find?_concat_of_ne {children : Children} {child other : String} {raw : Option Value}
    (hne : other ≠ child) (h : children.find? other = none) :
    Children.find? (children ++ [(child, raw)]) other = none := by
  unfold Children.find? at h ⊢
  rw [Option.map_eq_none_iff] at h ⊢
  rw [List.find?_append, h, Option.none_or]
  simp [Ne.symm hne]

/-- **What is found of a child entity is what is kept of the answer of the source**, whether it was
asked for before or not. -/
theorem outcome_findChild_of_ok {children : Children} (h : children.IsAnswered source)
    (child : String) (field : Value) {raw : Option Value}
    (hraw : keptOf (source.fetch .fieldList child) = .ok raw) :
    ∃ children' warnings, (findChild source children child field).outcome =
        .ok (raw, children', warnings) ∧ children'.IsAnswered source ∧
      (∀ other ≠ child, children.find? other = none → children'.find? other = none) ∧
      warnings.filterMap Warning.dropped? = [] ∧
      (children.find? child = none → ∀ e, source.fetch .fieldList child = .error (.error e) →
        .childUnresolved child e.message field ∈ warnings) := by
  unfold findChild
  cases hfound : children.find? child with
  | some raw' =>
    -- The answer that is remembered is the answer of the source.
    obtain rfl : raw' = raw := Except.ok.inj ((h.of_find? hfound).symm.trans hraw)
    exact ⟨children, [], rfl, h, fun _ _ => id, rfl, fun hnone => absurd hnone (by simp)⟩
  | none =>
    have hnew := h.concat hraw
    cases hfetch : source.fetch .fieldList child with
    | ok v =>
      rw [hfetch] at hraw
      obtain rfl : some v = raw := Except.ok.inj hraw
      have hask : (askChild source child).outcome = .ok (.ok v) := by
        rw [askChild, hfetch]
        rfl
      refine ⟨_, [], ?_, hnew, fun _ => find?_concat_of_ne, rfl, fun _ e => by simp⟩
      exact Traced.outcome_bind_eq_ok.2 ⟨_, hask, rfl⟩
    | error e =>
      cases e with
      | error e =>
        rw [hfetch] at hraw
        obtain rfl : none = raw := Except.ok.inj hraw
        have hask : (askChild source child).outcome = .ok (.error e) := by
          rw [askChild, hfetch]
          rfl
        refine ⟨_, [.childUnresolved child e.message field], ?_, hnew,
          fun _ => find?_concat_of_ne, rfl, ?_⟩
        · exact Traced.outcome_bind_eq_ok.2 ⟨_, hask, rfl⟩
        · rintro - e' he
          obtain rfl : e = e' := by simpa using he
          exact List.mem_singleton_self _
      | fault f =>
        rw [hfetch] at hraw
        exact absurd hraw (by simp [keptOf])

/-- A fault in what the source gives for a child entity is met when the entity is looked for. -/
theorem outcome_findChild_of_error {children : Children} (h : children.IsAnswered source)
    (child : String) (field : Value) {f : Fault}
    (hfault : keptOf (source.fetch .fieldList child) = .error f) :
    (findChild source children child field).outcome = .error (.fault f) := by
  unfold findChild
  cases hfound : children.find? child with
  | some raw =>
    rw [h.of_find? hfound] at hfault
    exact absurd hfault (by simp)
  -- The child is asked for, and the fault is that of the answer.
  | none =>
    cases hfetch : source.fetch .fieldList child with
    | ok v =>
      rw [hfetch] at hfault
      exact absurd hfault (by simp [keptOf])
    | error e =>
      cases e with
      | error e =>
        rw [hfetch] at hfault
        exact absurd hfault (by simp [keptOf])
      | fault f' =>
        rw [hfetch] at hfault
        obtain rfl : f' = f := Except.error.inj hfault
        have hask : (askChild source child).outcome = .error (.fault f') := by
          rw [askChild, hfetch]
          rfl
        show (askChild source child >>= _).outcome = _
        rw [Traced.bind_of_error _ hask]

/-! ## All child tables -/

/-- The rows can be told apart by their types, and their names can be keys. -/
structure AreKeyed (rows : List Entries) : Prop where
  types : ∀ row ∈ rows, (row.get "fieldtype").isKey = true
  names : ∀ row ∈ rows, (row.get "fieldname").isKey = true

/-- The first of such rows can be told from the others by its type, and named. -/
theorem AreKeyed.cons {row : Entries} {rows : List Entries} (h : AreKeyed (row :: rows)) :
    hasType tableTypes (row.get "fieldtype") = .ok (isAmong tableTypes (row.get "fieldtype")) ∧
      (row.get "fieldname").isKey = true ∧ AreKeyed rows := by
  obtain ⟨htype, htypes⟩ := List.forall_mem_cons.1 h.types
  obtain ⟨hname, hnames⟩ := List.forall_mem_cons.1 h.names
  exact ⟨hasType_eq_ok.2 ⟨htype, rfl⟩, hname, htypes, hnames⟩

/-- The tables put under their names, one after the other. -/
def putTables (tables : Keyed ChildTable) (made : List ((Value × ChildTable) × List Warning)) :
    Keyed ChildTable :=
  made.foldl (fun m p => m.put p.1.1 p.1.2) tables

/-- Tables put into nothing are a list by their names. -/
theorem putTables_nil (made : List ((Value × ChildTable) × List Warning)) :
    putTables [] made = Keyed.ofList (made.map (·.1)) := by
  rw [putTables, Keyed.ofList, List.foldl_map]

/-- The table fields among rows, the first row apart. -/
theorem tableFields_cons (row : Entries) (rows : List Entries) :
    tableFields (row :: rows) =
      match isAmong tableTypes (row.get "fieldtype"), (row.get "options").label? with
      | true, some child => (row.get "fieldname", child) :: tableFields rows
      | _, _ => tableFields rows := by
  unfold tableFields
  rw [List.filterMap_cons]
  cases isAmong tableTypes (row.get "fieldtype") with
  | false => rfl
  | true => cases (row.get "options").label? <;> rfl

/-! ### One row after another -/

section Row

variable {children : Children} {tables : Keyed ChildTable} {row : Entries} {rows : List Entries}

/-- Whether the first row is a table was told when the tables were made. -/
theorem hasType_of_childTables {made : Keyed ChildTable × List Warning}
    (h : (childTables source children tables (row :: rows)).outcome = .ok made) :
    ∃ isTable, hasType tableTypes (row.get "fieldtype") = .ok isTable := by
  obtain ⟨isTable, htype, -⟩ := Traced.outcome_bind_eq_ok.1 h
  exact ⟨isTable, outcome_use_eq_ok.1 htype⟩

/-- A row that is no table is passed over. -/
theorem childTables_of_other (h : hasType tableTypes (row.get "fieldtype") = .ok false) :
    childTables source children tables (row :: rows) =
      childTables source children tables rows := by
  rw [childTables, h]
  exact pure_bind _ _

/-- A table that names no child entity leaves a warning in front of those of the other rows. -/
theorem childTables_of_unnamed (h : hasType tableTypes (row.get "fieldtype") = .ok true)
    (hchild : (row.get "options").label? = none) :
    childTables source children tables (row :: rows) = do
      let (made, warnings) ← childTables source children tables rows
      return (made, .tableWithoutOptions (row.get "fieldname") :: warnings) := by
  rw [childTables, h, hchild]
  exact pure_bind _ _

/-- A table with a child entity is made before those of the other rows, which know the entity from
then on. -/
theorem childTables_of_child {child : String}
    (h : hasType tableTypes (row.get "fieldtype") = .ok true)
    (hchild : (row.get "options").label? = some child) :
    childTables source children tables (row :: rows) = do
      let (raw, known, asked) ← findChild source children child (row.get "fieldname")
      let (table, described) ← use (childTable (row.get "fieldname") child raw)
      let key ← use (row.get "fieldname").key
      let (made, warnings) ← childTables source known (tables.put key table) rows
      return (made, asked ++ described ++ warnings) := by
  rw [childTables, h, hchild]
  exact pure_bind _ _

/-- How making the tables ends when that of the first row is made. -/
theorem outcome_childTables_of_child {child : String} {raw : Option Value} {known : Children}
    {table : ChildTable} {asked described : List Warning}
    (h : hasType tableTypes (row.get "fieldtype") = .ok true)
    (hchild : (row.get "options").label? = some child)
    (hname : (row.get "fieldname").isKey = true)
    (hfound : (findChild source children child (row.get "fieldname")).outcome =
      .ok (raw, known, asked))
    (hdescribed : childTable (row.get "fieldname") child raw = .ok (table, described)) :
    (childTables source children tables (row :: rows)).outcome =
      (childTables source known (tables.put (row.get "fieldname") table) rows).outcome.map
        fun made => (made.1, asked ++ described ++ made.2) := by
  have hkey : (row.get "fieldname").key = .ok (row.get "fieldname") := key_eq_ok.2 ⟨hname, rfl⟩
  rw [childTables_of_child h hchild, Traced.bind_of_ok _ hfound]
  simp only [hdescribed, hkey]
  exact Traced.outcome_bind_pure _ _

end Row

/-- **The child tables are those of the table fields**, put under their names one by one. The
expressions that are dropped on the way are those of the tables, and each child entity that the
source does not give leaves a warning. -/
theorem outcome_childTables_of_ok {rows : List Entries} (hrows : AreKeyed rows)
    {children : Children} (hchildren : children.IsAnswered source) (tables : Keyed ChildTable)
    {made : List ((Value × ChildTable) × List Warning)}
    (h : (tableFields rows).mapM (tableOf source) = .ok made) :
    ∃ warnings, (childTables source children tables rows).outcome =
        .ok (putTables tables made, warnings) ∧
      warnings.filterMap Warning.dropped? = made.flatMap (·.2.filterMap Warning.dropped?) ∧
      ∀ t ∈ tableFields rows, children.find? t.2 = none →
        ∀ e, source.fetch .fieldList t.2 = .error (.error e) →
          ∃ field, (field, t.2) ∈ tableFields rows ∧
            .childUnresolved t.2 e.message field ∈ warnings := by
  induction rows generalizing children tables made with
  | nil =>
    obtain rfl : made = [] := (Except.ok.inj h).symm
    exact ⟨[], rfl, rfl, by simp [tableFields]⟩
  | cons row rows ih =>
    obtain ⟨htype, hname, hkeyed⟩ := hrows.cons
    rw [tableFields_cons] at h ⊢
    cases htable : isAmong tableTypes (row.get "fieldtype") with
    | false =>
      rw [htable] at htype h
      rw [childTables_of_other htype]
      exact ih hkeyed hchildren tables h
    | true =>
      rw [htable] at htype h
      cases hchild : (row.get "options").label? with
      | none =>
        rw [hchild] at h
        obtain ⟨warnings, hrest, hdropped, hunresolved⟩ := ih hkeyed hchildren tables h
        refine ⟨.tableWithoutOptions (row.get "fieldname") :: warnings, ?_, hdropped, ?_⟩
        · rw [childTables_of_unnamed htype hchild, Traced.outcome_bind_pure, hrest]
          rfl
        · intro t ht hnone e he
          obtain ⟨field, hfield, hwarned⟩ := hunresolved t ht hnone e he
          exact ⟨field, hfield, List.mem_cons_of_mem _ hwarned⟩
      | some child =>
        rw [hchild] at h
        simp only at h ⊢
        -- The table of this field is made first, then those of the other rows.
        obtain ⟨first, rest, hfirst, hmade, rfl⟩ :=
          List.forall₂_cons_left_iff.1 (mapM_eq_ok.1 h)
        obtain ⟨raw, hraw, hfirst⟩ := bind_eq_ok.1 hfirst
        obtain ⟨⟨table, described⟩, hdescribed, hfirst⟩ := bind_eq_ok.1 hfirst
        obtain rfl := Except.ok.inj hfirst
        obtain ⟨known, asked, hfound, hknown, hother, hasked, hnew⟩ :=
          outcome_findChild_of_ok hchildren child (row.get "fieldname") hraw
        obtain ⟨warnings, hrest, hdropped, hunresolved⟩ :=
          ih hkeyed hknown (tables.put (row.get "fieldname") table) (mapM_eq_ok.2 hmade)
        refine ⟨asked ++ described ++ warnings, ?_, ?_, ?_⟩
        · rw [outcome_childTables_of_child htype hchild hname hfound hdescribed, hrest]
          rfl
        · rw [List.filterMap_append, List.filterMap_append, hasked, hdropped, List.flatMap_cons]
          rfl
        · -- The warning comes from this row, or from a later row for another child entity.
          intro t ht hnone e he
          by_cases hsame : t.2 = child
          · subst hsame
            exact ⟨_, List.mem_cons_self, List.mem_append_left _
              (List.mem_append_left _ (hnew hnone e he))⟩
          · have hmem : t ∈ tableFields rows := by
              rcases List.mem_cons.1 ht with rfl | ht
              · exact absurd rfl hsame
              · exact ht
            obtain ⟨field, hfield, hwarned⟩ := hunresolved t hmem (hother _ hsame hnone) e he
            exact ⟨field, List.mem_cons_of_mem _ hfield, List.mem_append_right _ hwarned⟩

/-- **The child tables end with the first fault** of a table that cannot be made. What was made of
the table fields before does not matter: a fault is not reported with a contract, but ends the
building. -/
theorem outcome_childTables_of_error {rows : List Entries} (hrows : AreKeyed rows)
    {children : Children} (hchildren : children.IsAnswered source) (tables : Keyed ChildTable)
    {f : Fault} (h : (tableFields rows).mapM (tableOf source) = .error f) :
    (childTables source children tables rows).outcome = .error (.fault f) := by
  induction rows generalizing children tables with
  | nil => exact absurd h (by simp [tableFields, pure, Except.pure])
  | cons row rows ih =>
    obtain ⟨htype, hname, hkeyed⟩ := hrows.cons
    rw [tableFields_cons] at h
    cases htable : isAmong tableTypes (row.get "fieldtype") with
    | false =>
      rw [htable] at htype h
      rw [childTables_of_other htype]
      exact ih hkeyed hchildren tables h
    | true =>
      rw [htable] at htype h
      cases hchild : (row.get "options").label? with
      | none =>
        rw [hchild] at h
        rw [childTables_of_unnamed htype hchild, Traced.outcome_bind_pure,
          ih hkeyed hchildren tables h]
        rfl
      | some child =>
        rw [hchild] at h
        simp only at h
        -- The fault is that of this table, from fetching or from describing, or of a later one.
        rcases mapM_cons_eq_error.1 h with hfault | ⟨first, hfirst, hrest⟩
        · rcases tableOf_eq_error.1 hfault with hfault | ⟨raw, hraw, hfault⟩
          · rw [childTables_of_child htype hchild]
            exact Traced.outcome_bind_eq_error.2
              (.inl (outcome_findChild_of_error hchildren child _ hfault))
          · obtain ⟨known, asked, hfound, -⟩ :=
              outcome_findChild_of_ok hchildren child (row.get "fieldname") hraw
            rw [childTables_of_child htype hchild]
            refine Traced.outcome_bind_eq_error.2 (.inr ⟨_, hfound, ?_⟩)
            exact Traced.outcome_bind_eq_error.2 (.inl (outcome_use_eq_error.2 hfault))
        · obtain ⟨raw, hraw, hfirst⟩ := bind_eq_ok.1 hfirst
          obtain ⟨⟨table, described⟩, hdescribed, -⟩ := bind_eq_ok.1 hfirst
          obtain ⟨known, asked, hfound, hknown, -⟩ :=
            outcome_findChild_of_ok hchildren child (row.get "fieldname") hraw
          rw [outcome_childTables_of_child htype hchild hname hfound hdescribed,
            ih hkeyed hknown _ hrest]
          rfl

end FormScaffold
