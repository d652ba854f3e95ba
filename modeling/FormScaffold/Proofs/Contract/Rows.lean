import FormScaffold.Contract.Build
import FormScaffold.Proofs.Traversal

/-! # Data rows and their fields

Among the rows of an entity the data rows are those that lay nothing out and have usable names. The
form has one field for each of them, in their order, and so has a child table for those of its
entity. A field keeps the dependency expressions of its row that can be read; of the others each is
dropped with a warning of its own.

* **`Describes`** — a field has its name, its default and its readable expressions from a row, as
  every field does that is made from it (`IsMade`);
* `exists_of_splitRows`, `exists_splitRows_of_isKey` — the rows that hold data are the data rows;
* `kindOf`, `ofRow_eq_ok` — the kind of a row, told from its type and its name;
* **`exists_of_fill`** — the fields of the form are those of the data rows, and the expressions that
  the warnings name are those of the data rows that cannot be read;
* `exists_of_describeChild` — so it is with the fields of a child entity. -/

namespace FormScaffold

/-! ## Expressions -/

/-- The dependency expression of a kind that a row states. -/
def stated? (row : Entries) (d : Dependency) : Option String := (row.get d.attributeName).label?

/-- An expression is dropped when it cannot be read. -/
def unreadable? (d : Dependency) (owner s : String) : Option Dropped :=
  match Expression.parseText s with
  | .ok _ => none
  | .error e => some ⟨d, e, owner⟩

/-- The expressions of a row that cannot be read; its name follows the given text in messages. -/
def unreadable (prior : String) (row : Entries) : List Dropped :=
  Dependency.all.filterMap fun d => (stated? row d).bind (unreadable? d (ownerOf prior row))

/-- The dropped expression that a warning is about. -/
def Warning.dropped? : Warning → Option Dropped
  | .dropped d => some d
  | _ => none

/-- An expression that is stated is kept when it can be read. -/
theorem map_text_checkCondition (row : Entries) (owner : String) (d : Dependency) :
    (checkCondition row owner d).1.map (·.text) =
      (stated? row d).filter fun s => (Expression.parseText s).isOk := by
  unfold checkCondition stated?
  split
  · rename_i hnone
    rw [hnone]
    rfl
  · rename_i s hs
    rw [hs]
    split
    · rename_i e he
      show some s = if (Expression.parseText s).isOk then some s else none
      rw [he]
      rfl
    · rename_i e he
      show none = if (Expression.parseText s).isOk then some s else none
      rw [he]
      rfl

/-- An expression that is stated is dropped when it cannot be read. -/
theorem snd_checkCondition (row : Entries) (owner : String) (d : Dependency) :
    (checkCondition row owner d).2 = (stated? row d).bind (unreadable? d owner) := by
  unfold checkCondition stated?
  split
  · rename_i hnone
    rw [hnone]
    rfl
  · rename_i s hs
    rw [hs, Option.bind_some]
    split
    · rename_i e he
      show none = unreadable? d owner s
      rw [unreadable?, he]
    · rename_i e he
      rw [unreadable?, he]

/-- The conditions that are dropped of a row are those that cannot be read. -/
theorem droppedConditions_eq (prior : String) (row : Entries) :
    droppedConditions row (ownerOf prior row) = unreadable prior row := by
  unfold droppedConditions unreadable
  congr 1
  funext d
  exact snd_checkCondition row (ownerOf prior row) d

/-- A warning for each dropped expression is about just these. -/
theorem filterMap_dropped?_map (ds : List Dropped) :
    (ds.map Warning.dropped).filterMap Warning.dropped? = ds := by
  rw [List.filterMap_map]
  exact List.filterMap_some

/-- The warnings about rows name the conditions that cannot be read, row by row. -/
theorem filterMap_dropped?_flatMap (prior : String) (rows : List Entries) :
    (rows.flatMap fun row => (droppedConditions row (ownerOf prior row)).map .dropped).filterMap
      Warning.dropped? = rows.flatMap (unreadable prior) := by
  induction rows with
  | nil => rfl
  | cons row rows ih =>
    rw [List.flatMap_cons, List.filterMap_append, ih, filterMap_dropped?_map,
      droppedConditions_eq, List.flatMap_cons]

/-! ## Fields -/

/-- **A field that has its name, its default and its readable expressions from the row.** -/
structure Describes (row : Entries) (f : Field) : Prop where
  name : f.name = row.get "fieldname"
  default : f.default = row.get "default"
  conditions : ∀ d, (f.conditions.get d).map (·.text) =
    (stated? row d).filter fun s => (Expression.parseText s).isOk

/-- A described field is that of its row. -/
theorem describes_of_describe {row : Entries} {column : Nat} {prior : String} {f : Field}
    (h : Field.describe row column prior = .ok f) : Describes row f := by
  obtain ⟨label, -, h⟩ := bind_eq_ok.1 h
  rw [← Except.ok.inj h]
  refine ⟨rfl, rfl, fun d => ?_⟩
  cases d <;> exact map_text_checkCondition row _ _

/-- The field is made from the row, in some column and with some text before its name in
messages. -/
def IsMade (row : Entries) (f : Field) : Prop :=
  ∃ column prior, Field.describe row column prior = .ok f

/-- A field that is made from a row is described by it. -/
theorem IsMade.describes {row : Entries} {f : Field} (h : IsMade row f) : Describes row f := by
  obtain ⟨column, prior, h⟩ := h
  exact describes_of_describe h

/-- The names of described fields are those of the rows. -/
theorem map_name_of_describes {rows : List Entries} {fields : List Field}
    (h : List.Forall₂ Describes rows fields) :
    fields.map (·.name) = rows.map (·.get "fieldname") :=
  map_eq_map_of_forall₂ (h.imp fun _ _ hf => hf.name)

/-! ## Data rows -/

/-- Whether a raw type is one of the given ones. -/
def isAmong (types : List String) : Value → Bool
  | .text s => types.contains s
  | _ => false

/-- A type is one of several when it is one of their texts. -/
theorem isAmong_eq_true {types : List String} {v : Value} :
    isAmong types v = true ↔ ∃ s, v = .text s ∧ s ∈ types := by
  cases v <;> simp [isAmong]

/-- Whether the row holds data and has a usable name. -/
def isData (row : Entries) : Bool := !isAmong layoutTypes (row.get "fieldtype") && isNamed row

/-- A value that can be a key is used as it is. -/
theorem key_eq_ok {v key : Value} : v.key = .ok key ↔ v.isKey = true ∧ v = key := by
  unfold Value.key
  split
  · rename_i hkey
    simp [hkey]
  · rename_i hkey
    simp [hkey]

/-- Any type that can be a key is one of the given ones or not. -/
theorem hasType_eq_ok {types : List String} {type : Value} {found : Bool} :
    hasType types type = .ok found ↔ type.isKey = true ∧ found = isAmong types type := by
  have hfound : ∀ key : Value, (match key with
      | .text s => (return types.contains s : Except Fault Bool)
      | _ => return false) = .ok (isAmong types key) := by
    intro key
    cases key <;> rfl
  unfold hasType
  rw [bind_eq_ok]
  constructor
  · rintro ⟨key, hused, h⟩
    obtain ⟨hkey, rfl⟩ := key_eq_ok.1 hused
    exact ⟨hkey, (Except.ok.inj ((hfound type).symm.trans h)).symm⟩
  · rintro ⟨hkey, rfl⟩
    exact ⟨type, key_eq_ok.2 ⟨hkey, rfl⟩, hfound type⟩

/-- **The rows that hold data are the data rows among all.** The others are breaks and the like, and
rows without a usable name, of which a warning says where they stood. -/
theorem exists_of_splitRows {place : Nat} {vs : List Value} {data : List Entries}
    {unnamed : List Nat} (h : splitRows place vs = .ok (data, unnamed)) :
    ∃ rows : List Entries, vs = rows.map .record ∧ data = rows.filter isData ∧
      ∀ row ∈ rows, (row.get "fieldtype").isKey = true := by
  induction vs generalizing place data unnamed with
  | nil =>
    obtain ⟨rfl, -⟩ := Prod.mk.inj (Except.ok.inj h)
    exact ⟨[], rfl, rfl, by simp⟩
  | cons v vs ih =>
    obtain ⟨row, hrow, h⟩ := bind_eq_ok.1 h
    obtain ⟨lays, hlays, h⟩ := bind_eq_ok.1 h
    obtain ⟨⟨rest, more⟩, hrest, h⟩ := bind_eq_ok.1 h
    obtain ⟨rows, hrows, rfl, hkeys⟩ := ih hrest
    have hv : v = .record row := by
      cases v with
      | record es => rw [Except.ok.inj hrow]
      | _ => exact absurd hrow (by simp [Value.entries])
    obtain ⟨hkey, hlayout⟩ := hasType_eq_ok.1 hlays
    refine ⟨row :: rows, by rw [hv, hrows, List.map_cons], ?_,
      List.forall_mem_cons.2 ⟨hkey, hkeys⟩⟩
    rw [List.filter_cons, isData, ← hlayout]
    -- A break holds no data, and neither does a row without a name.
    cases lays with
    | true =>
      obtain ⟨rfl, -⟩ := Prod.mk.inj (Except.ok.inj h)
      rfl
    | false =>
      cases hnamed : isNamed row with
      | true =>
        simp only [hnamed, if_true] at h
        obtain ⟨rfl, -⟩ := Prod.mk.inj (Except.ok.inj h)
        rfl
      | false =>
        simp only [hnamed] at h
        obtain ⟨rfl, -⟩ := Prod.mk.inj (Except.ok.inj h)
        rfl

/-- Of rows that are records the data rows are found. -/
theorem filter_of_splitRows {place : Nat} {rows data : List Entries} {unnamed : List Nat}
    (h : splitRows place (rows.map .record) = .ok (data, unnamed)) : data = rows.filter isData := by
  obtain ⟨rows', heq, hdata, -⟩ := exists_of_splitRows h
  rwa [List.map_injective_iff.2 (fun _ _ => Value.record.inj) heq]

/-- Rows with types that can be keys can be told apart. -/
theorem exists_splitRows_of_isKey (place : Nat) {rows : List Entries}
    (h : ∀ row ∈ rows, (row.get "fieldtype").isKey = true) :
    ∃ unnamed, splitRows place (rows.map .record) = .ok (rows.filter isData, unnamed) := by
  -- Whatever the result is, it holds the data rows.
  suffices hsplit : ∃ made, splitRows place (rows.map .record) = .ok made by
    obtain ⟨⟨data, unnamed⟩, hsplit⟩ := hsplit
    exact ⟨unnamed, filter_of_splitRows hsplit ▸ hsplit⟩
  induction rows generalizing place with
  | nil => exact ⟨_, rfl⟩
  | cons row rows ih =>
    obtain ⟨hkey, hkeys⟩ := List.forall_mem_cons.1 h
    obtain ⟨⟨data, unnamed⟩, hrest⟩ := ih (place + 1) hkeys
    have htype : hasType layoutTypes (row.get "fieldtype") = .ok _ := hasType_eq_ok.2 ⟨hkey, rfl⟩
    refine exists_bind_eq_ok (a := row) rfl (exists_bind_eq_ok htype (exists_bind_eq_ok hrest ?_))
    simp only
    split
    · exact ⟨_, rfl⟩
    · split <;> exact ⟨_, rfl⟩

/-! ## The form -/

/-- Closing a section keeps its fields. A section that is not kept has none. -/
theorem flatMap_fields_close (s : OpenSection) : s.close.flatMap (·.fields) = s.fields := by
  unfold OpenSection.close
  split
  · rename_i h
    simp only [Bool.and_eq_true, List.isEmpty_iff] at h
    rw [h.1]
    rfl
  · simp

/-- A break drops no expression. -/
theorem filterMap_dropped?_breakWarning (row : Entries) (place : Nat) :
    (breakWarning row place).filterMap Warning.dropped? = [] := by
  unfold breakWarning
  split
  · split <;> rfl
  · rfl

/-- The kind of a row whose type can be a key. -/
def kindOf (row : Entries) : RowKind :=
  if isAmong [tabBreak] (row.get "fieldtype") then .tab
  else if isAmong [sectionBreak] (row.get "fieldtype") then .section
  else if isAmong [columnBreak] (row.get "fieldtype") then .column
  else if isAmong layoutTypes (row.get "fieldtype") then .layout
  else if isNamed row then .field
  else .unnamed

/-- **A row has its kind when its type can be a key.** A type that is no key, such as a list, cannot
be looked up among the names of types and ends the reading. -/
theorem ofRow_eq_ok {row : Entries} {kind : RowKind} :
    RowKind.ofRow row = .ok kind ↔ (row.get "fieldtype").isKey = true ∧ kindOf row = kind := by
  unfold RowKind.ofRow kindOf
  split
  · rename_i type htype
    -- A text is compared with each type of a break in turn.
    have hbreak : ∀ b, isAmong [b] (.text type) = (type == b) := fun b => by
      simp [isAmong, beq_eq_decide]
    have hlayout : isAmong layoutTypes (.text type) = layoutTypes.contains type := rfl
    rw [htype, hbreak, hbreak, hbreak, hlayout]
    have hkey : (Value.text type).isKey = true := rfl
    simp only [hkey, true_and, ← apply_ite Except.ok, Except.ok.injEq]
  · rename_i htype
    -- What is no text is none of the types, and is looked at only for whether it is a key.
    have hnone : ∀ types, isAmong types (row.get "fieldtype") = false := fun types =>
      Bool.eq_false_iff.2 fun hamong => by
        obtain ⟨s, hs, -⟩ := isAmong_eq_true.1 hamong
        exact htype s hs
    rw [hnone, hnone, hnone, hnone]
    constructor
    · intro h
      obtain ⟨key, hkey, h⟩ := bind_eq_ok.1 h
      exact ⟨(key_eq_ok.1 hkey).1, Except.ok.inj h⟩
    · rintro ⟨hkey, hkind⟩
      exact bind_eq_ok.2 ⟨_, key_eq_ok.2 ⟨hkey, rfl⟩, congrArg Except.ok hkind⟩

/-- The rows that become fields are the data rows. -/
theorem kindOf_eq_field {row : Entries} : kindOf row = .field ↔ isData row = true := by
  -- The three kinds of breaks are layout types themselves.
  have hlayout : ∀ b ∈ layoutTypes, isAmong layoutTypes (row.get "fieldtype") = false →
      isAmong [b] (row.get "fieldtype") = false := by
    intro b hb hnot
    refine Bool.eq_false_iff.2 fun hamong => Bool.eq_false_iff.1 hnot ?_
    obtain ⟨s, hs, hmem⟩ := isAmong_eq_true.1 hamong
    exact isAmong_eq_true.2 ⟨s, hs, List.mem_singleton.1 hmem ▸ hb⟩
  unfold kindOf isData
  cases hamong : isAmong layoutTypes (row.get "fieldtype") with
  | true =>
    rw [if_pos rfl]
    repeat' split
    all_goals simp
  | false =>
    rw [hlayout _ (by decide) hamong, hlayout _ (by decide) hamong, hlayout _ (by decide) hamong]
    cases isNamed row <;> decide

/-- The rows that become fields are those that hold data and have a name. -/
theorem eq_field_iff_isData {row : Entries} {kind : RowKind} (h : RowKind.ofRow row = .ok kind) :
    kind = .field ↔ isData row = true := by
  rw [← (ofRow_eq_ok.1 h).2, kindOf_eq_field]

/-- The sections after a row hold the fields before it and, for a data row, its own. -/
theorem exists_of_step {s t : OpenSection} {row : Entries} {place : Nat}
    {closed : List FormSection} {warnings : List Warning}
    (h : s.step row place = .ok (closed, t, warnings)) :
    ∃ fields, List.Forall₂ IsMade ([row].filter isData) fields ∧
      closed.flatMap (·.fields) ++ t.fields = s.fields ++ fields ∧
      warnings.filterMap Warning.dropped? = ([row].filter isData).flatMap (unreadable "") := by
  obtain ⟨kind, hkind, h⟩ := bind_eq_ok.1 h
  have hdata := eq_field_iff_isData hkind
  have hnone : isData row = false → closed.flatMap (·.fields) ++ t.fields = s.fields →
      warnings.filterMap Warning.dropped? = [] →
      ∃ fields, List.Forall₂ IsMade ([row].filter isData) fields ∧
        closed.flatMap (·.fields) ++ t.fields = s.fields ++ fields ∧
        warnings.filterMap Warning.dropped? = ([row].filter isData).flatMap (unreadable "") := by
    intro hrow hfields hwarnings
    rw [List.filter_singleton, hrow]
    exact ⟨[], .nil, by rw [hfields, List.append_nil], hwarnings⟩
  have hno : kind ≠ .field → isData row = false := fun hne =>
    Bool.eq_false_iff.2 fun hrow => hne (hdata.2 hrow)
  cases kind with
  | tab =>
    obtain ⟨label, -, h⟩ := bind_eq_ok.1 h
    cases h
    refine hnone (hno (by decide)) ?_ (filterMap_dropped?_breakWarning row place)
    rw [flatMap_fields_close]
    exact List.append_nil _
  | column =>
    cases h
    exact hnone (hno (by decide)) rfl rfl
  | layout =>
    cases h
    exact hnone (hno (by decide)) rfl rfl
  | field =>
    obtain ⟨f, hf, h⟩ := bind_eq_ok.1 h
    cases h
    rw [List.filter_singleton, hdata.1 rfl]
    refine ⟨[f], .cons ⟨_, _, hf⟩ .nil, rfl, ?_⟩
    rw [filterMap_dropped?_map, droppedConditions_eq]
    exact (List.flatMap_singleton _ _).symm
  | unnamed =>
    cases h
    exact hnone (hno (by decide)) rfl rfl
  | _ =>
    -- A section break closes the section before it, as a tab does.
    cases h
    refine hnone (hno (by decide)) ?_ (filterMap_dropped?_breakWarning row place)
    rw [flatMap_fields_close]
    exact List.append_nil _

/-- **The fields of the sections that rows make are those of the open one and then one for each data
row**; the expressions that the warnings are about are those of data rows that cannot be read. -/
theorem exists_of_fill {s : OpenSection} {place : Nat} {rows : List Entries}
    {sections : List FormSection} {warnings : List Warning}
    (h : s.fill place (rows.map .record) = .ok (sections, warnings)) :
    ∃ fields, List.Forall₂ IsMade (rows.filter isData) fields ∧
      sections.flatMap (·.fields) = s.fields ++ fields ∧
      warnings.filterMap Warning.dropped? = (rows.filter isData).flatMap (unreadable "") := by
  induction rows generalizing s place sections warnings with
  | nil =>
    cases h
    exact ⟨[], .nil, by rw [flatMap_fields_close, List.append_nil], rfl⟩
  | cons row rows ih =>
    obtain ⟨raw, hraw, h⟩ := bind_eq_ok.1 h
    obtain rfl : row = raw := Except.ok.inj hraw
    obtain ⟨⟨closed, t, first⟩, hstep, h⟩ := bind_eq_ok.1 h
    obtain ⟨⟨later, more⟩, hfill, h⟩ := bind_eq_ok.1 h
    cases h
    -- The step adds the fields of the row to the open section, and the rest goes on from there.
    obtain ⟨fields, hfields, heq, hfirst⟩ := exists_of_step hstep
    obtain ⟨fields', hfields', heq', hmore⟩ := ih hfill
    rw [← List.singleton_append, List.filter_append]
    refine ⟨fields ++ fields', List.rel_append hfields hfields', ?_, ?_⟩
    · rw [List.flatMap_append, heq', ← List.append_assoc, heq, List.append_assoc]
    · rw [List.filterMap_append, hfirst, hmore, List.flatMap_append]

/-! ## Child entities -/

/-- The rows of a raw field list. -/
def rawRows (v : Value) : Except Fault (List Entries) := do
  (← v.elementsOrNone).mapM Value.asRecord

/-- Rows that are records are the rows of their list. -/
theorem rawRows_of_elements {v : Value} {rows : List Entries}
    (h : v.elements = .ok (rows.map .record)) : rawRows v = .ok rows := by
  have hrows : (rows.map Value.record).mapM Value.asRecord = .ok rows := by
    refine mapM_eq_ok.2 ?_
    rw [List.forall₂_map_left_iff]
    exact List.forall₂_same.2 fun row _ => rfl
  unfold rawRows Value.elementsOrNone
  split
  · rw [h]
    exact hrows
  · rename_i hfalse
    -- Of the values that count as nothing only empty ones have elements.
    have hempty : rows = [] := by
      cases v with
      | list items =>
        have hitems : items = [] := by simpa [Value.truthy] using hfalse
        rw [hitems] at h
        exact List.map_eq_nil_iff.1 (Except.ok.inj h).symm
      | text s =>
        have hs : s = "" := by simpa [Value.truthy] using hfalse
        rw [hs] at h
        exact List.map_eq_nil_iff.1 (Except.ok.inj h).symm
      | record es =>
        have hes : es = [] := by simpa [Value.truthy] using hfalse
        rw [hes] at h
        exact List.map_eq_nil_iff.1 (Except.ok.inj h).symm
      | _ => exact absurd h (by simp [Value.elements])
    rw [hempty]
    rfl

/-- **A child table has one field for each data row of its entity.** The expressions that are
dropped on the way are those of the rows that cannot be read, named behind the table field. -/
theorem exists_of_describeChild {prior : String} {v : Value} {fields : List Field}
    {warnings : List Warning} (h : describeChild prior v = .ok (fields, warnings)) :
    ∃ rows, rawRows v = .ok rows ∧
      List.Forall₂ (fun row f => Field.describe row 0 prior = .ok f) (rows.filter isData) fields ∧
      warnings.filterMap Warning.dropped? = (rows.filter isData).flatMap (unreadable prior) := by
  obtain ⟨vs, hvs, h⟩ := bind_eq_ok.1 h
  obtain ⟨⟨data, unnamed⟩, hdata, h⟩ := bind_eq_ok.1 h
  obtain ⟨fields', hfields, h⟩ := bind_eq_ok.1 h
  cases h
  obtain ⟨rows, rfl, rfl, -⟩ := exists_of_splitRows hdata
  refine ⟨rows, rawRows_of_elements hvs, mapM_eq_ok.1 hfields, ?_⟩
  have hunnamed : (unnamed.map (Warning.unnamed prior)).filterMap Warning.dropped? = [] := by
    rw [List.filterMap_map]
    exact List.filterMap_eq_nil_iff.2 fun _ _ => rfl
  rw [List.filterMap_append, hunnamed, List.nil_append, filterMap_dropped?_flatMap]

end FormScaffold
