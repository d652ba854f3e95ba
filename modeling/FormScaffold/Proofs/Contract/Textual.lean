import FormScaffold.Proofs.Contract.Overflow

/-! # Rows with textual names

Where the names and the types of rows are texts, or nothing, most of what a contract is made from
can be read whatever else the rows hold.

* **`IsTyped`** — a row whose name and type are texts or nothing;
* `exists_applyOverrides` — overrides apply to typed rows and leave them typed;
* `exists_splitRows`, `exists_formSections`, `exists_listFilters`, `exists_describeChild`,
  `exists_behaviors` — what can be read of typed rows;
* `outcome_childTables_of_isTyped` — their child tables, when the source gives typed rows for the
  child entities. -/

namespace FormScaffold

/-! ## Textual attributes -/

/-- A text, or nothing. -/
def Value.IsTextual (v : Value) : Prop := v = .null ∨ ∃ s, v = .text s

/-- Under each of the keys stands a text or nothing. -/
def HasTexts (keys : List String) (es : Entries) : Prop := ∀ e ∈ es, e.1 ∈ keys → e.2.IsTextual

/-- **A row whose name and type are texts or nothing.** -/
def IsTyped (row : Entries) : Prop := HasTexts ["fieldname", "fieldtype"] row

/-- Texts may be keys, and so may nothing. -/
theorem Value.IsTextual.isKey {v : Value} (h : v.IsTextual) : v.isKey = true := by
  rcases h with rfl | ⟨s, rfl⟩ <;> rfl

namespace HasTexts

variable {keys : List String} {es : Entries}

/-- What stands under one of the keys is a text or nothing. -/
theorem get (h : HasTexts keys es) (key : String) (hkey : key ∈ keys) :
    (es.get key).IsTextual := by
  rw [Entries.get, Entries.get?]
  cases hfind : es.find? (·.1 == key) with
  | none => exact .inl rfl
  | some e =>
    have hname := List.find?_some hfind
    obtain rfl : e.1 = key := beq_iff_eq.1 hname
    exact h e (List.mem_of_find?_eq_some hfind) hkey

/-- Putting a value keeps the texts when the value is one, or stands under another key. -/
theorem put (h : HasTexts keys es) {key : String} {v : Value} (hv : key ∈ keys → v.IsTextual) :
    HasTexts keys (es.put key v) := by
  induction es with
  | nil =>
    intro e he hkey
    obtain rfl := List.mem_singleton.1 he
    exact hv hkey
  | cons e es ih =>
    obtain ⟨k, old⟩ := e
    obtain ⟨hold, hes⟩ := List.forall_mem_cons.1 h
    rw [Entries.put]
    split
    · rename_i hk
      obtain rfl : k = key := beq_iff_eq.1 hk
      exact List.forall_mem_cons.2 ⟨hv, hes⟩
    · exact List.forall_mem_cons.2 ⟨hold, ih hes⟩

end HasTexts

namespace IsTyped

variable {row : Entries} (h : IsTyped row)

include h

/-- The type of a typed row can be compared with the names of types. -/
theorem isKey_type : (row.get "fieldtype").isKey = true := (HasTexts.get h _ (by simp)).isKey

/-- The name of a typed row can be looked up. -/
theorem isKey_name : (row.get "fieldname").isKey = true := (HasTexts.get h _ (by simp)).isKey

/-- A usable name is a text. -/
theorem exists_name (hnamed : isNamed row = true) : ∃ s, row.get "fieldname" = .text s := by
  rcases HasTexts.get h "fieldname" (by simp) with hnull | hs
  · rw [isNamed, hnull] at hnamed
    exact absurd hnamed (by decide)
  · exact hs

end IsTyped

/-! ## Overrides -/

/-- A typed patch leaves a typed row typed. -/
theorem isTyped_patchRow {patch row : Entries} (hpatch : IsTyped patch) (hrow : IsTyped row) :
    IsTyped (patchRow patch row) := by
  unfold patchRow
  induction patch generalizing row with
  | nil => exact hrow
  | cons e patch ih =>
    obtain ⟨he, hrest⟩ := List.forall_mem_cons.1 hpatch
    rw [List.foldl_cons]
    refine ih hrest ?_
    split
    · exact hrow
    · exact hrow.put he

/-- Changing the last row that is meant leaves rows typed when each changed row is. -/
theorem forall_isTyped_modifyLast {p : Entries → Bool} {f : Entries → Entries}
    (hf : ∀ row, IsTyped row → IsTyped (f row)) {rows changed : List Entries}
    (h : modifyLast p f rows = some changed) (hrows : ∀ row ∈ rows, IsTyped row) :
    ∀ row ∈ changed, IsTyped row := by
  induction rows generalizing changed with
  | nil => exact absurd h (by simp [modifyLast])
  | cons row rows ih =>
    obtain ⟨hrow, hrest⟩ := List.forall_mem_cons.1 hrows
    rw [modifyLast] at h
    -- The last row that fits is changed: one of the later rows, if one of them does.
    split at h
    · rename_i later hlater
      rw [← Option.some.inj h]
      exact List.forall_mem_cons.2 ⟨hrow, ih hlater hrest⟩
    · split at h
      · rw [← Option.some.inj h]
        exact List.forall_mem_cons.2 ⟨hf row hrow, hrest⟩
      · exact absurd h (by simp)

/-- A typed patch leaves typed rows typed, whether a row has its name or none does. -/
theorem forall_isTyped_applyPatch {patch : Entries} (hpatch : IsTyped patch) {rows : List Entries}
    (hrows : ∀ row ∈ rows, IsTyped row) : ∀ row ∈ (applyPatch rows patch).1, IsTyped row := by
  unfold applyPatch
  simp only
  split
  · rename_i changed hchanged
    exact forall_isTyped_modifyLast (fun _ => isTyped_patchRow hpatch) hchanged hrows
  · exact hrows

/-- **Typed patches always apply to typed rows**, and leave them typed. Patches for fields that are
not there end in warnings. -/
theorem exists_applyPatches {rows patches : List Entries} (hrows : ∀ row ∈ rows, IsTyped row)
    (hpatches : ∀ patch ∈ patches, IsTyped patch) :
    ∃ patched warnings, applyPatches rows (patches.map .record) = .ok (patched, warnings) ∧
      ∀ row ∈ patched, IsTyped row := by
  induction patches generalizing rows with
  | nil => exact ⟨rows, [], rfl, hrows⟩
  | cons patch patches ih =>
    obtain ⟨hpatch, hrest⟩ := List.forall_mem_cons.1 hpatches
    obtain ⟨patched, warnings, hpatched, htyped⟩ :=
      ih (forall_isTyped_applyPatch hpatch hrows) hrest
    have hkey : (patch.get "fieldname").key = .ok (patch.get "fieldname") :=
      key_eq_ok.2 ⟨hpatch.isKey_name, rfl⟩
    refine ⟨patched, (applyPatch rows patch).2 ++ warnings, ?_, htyped⟩
    refine bind_eq_ok.2 ⟨patch, rfl, bind_eq_ok.2 ⟨_, hkey, ?_⟩⟩
    exact bind_eq_ok.2 ⟨_, hpatched, rfl⟩

/-- **Overrides apply to typed rows and leave them typed.** A text or nothing can always be compared
with a name, so that looking for the field of a patch cannot fail. -/
theorem exists_applyOverrides {fields overrides : Value} (hfields : AreRows IsTyped fields)
    (hoverrides : AreRows IsTyped overrides) :
    ∃ rows warnings, applyOverrides fields overrides = .ok (rows, warnings) ∧
      ∀ row ∈ rows, IsTyped row := by
  obtain ⟨rows, warnings, hrows, htyped⟩ :=
    exists_applyPatches hfields.forall_mem hoverrides.forall_mem
  have hrecords : (fields.rows.map Value.record).mapM Value.asRecord = .ok fields.rows := by
    rw [mapM_eq_ok, List.forall₂_map_left_iff]
    exact List.forall₂_same.2 fun row _ => rfl
  -- The names of the rows are only looked up, which any key allows.
  have hnames : fields.rows.forM checkName = .ok () := by
    have hall := hfields.forall_mem
    generalize fields.rows = all at hall
    induction all with
    | nil => rfl
    | cons row all ih =>
      obtain ⟨hrow, hall⟩ := List.forall_mem_cons.1 hall
      refine bind_eq_ok.2 ⟨(), ?_, ih hall⟩
      unfold checkName
      simp only
      split
      · exact bind_eq_ok.2 ⟨_, key_eq_ok.2 ⟨hrow.isKey_name, rfl⟩, rfl⟩
      · rfl
  refine ⟨rows, warnings, ?_, htyped⟩
  refine bind_eq_ok.2 ⟨_, hfields.elementsOrNone, bind_eq_ok.2 ⟨_, hrecords, ?_⟩⟩
  exact bind_eq_ok.2 ⟨(), hnames, bind_eq_ok.2 ⟨_, hoverrides.elementsOrNone, hrows⟩⟩

/-! ## Rows and their fields -/

/-- Typed rows are always split into data and the rest. -/
theorem exists_splitRows (place : Nat) {rows : List Entries} (h : ∀ row ∈ rows, IsTyped row) :
    ∃ unnamed, splitRows place (rows.map .record) = .ok (rows.filter isData, unnamed) :=
  exists_splitRows_of_isKey place fun row hrow => (h row hrow).isKey_type

/-- A typed row with a usable name always describes a field. -/
theorem exists_describe {row : Entries} (h : IsTyped row) (hnamed : isNamed row = true)
    (column : Nat) (prior : String) : ∃ f, Field.describe row column prior = .ok f := by
  obtain ⟨s, hs⟩ := h.exists_name hnamed
  obtain ⟨label, hlabel⟩ := exists_labelOf hs
  exact ⟨_, bind_eq_ok.2 ⟨label, hlabel, rfl⟩⟩

/-- Typed rows with usable names always give filters. -/
theorem exists_listFilters {rows : List Entries} (h : ∀ row ∈ rows, IsTyped row)
    (hnamed : ∀ row ∈ rows, isNamed row = true) : ∃ filters, listFilters rows = .ok filters := by
  refine exists_mapM_eq_ok fun row hrow => ?_
  have hmem := List.mem_of_mem_filter hrow
  obtain ⟨s, hs⟩ := (h row hmem).exists_name (hnamed row hmem)
  obtain ⟨label, hlabel⟩ := exists_labelOf hs
  exact ⟨_, bind_eq_ok.2 ⟨label, hlabel, rfl⟩⟩

/-- The label of a tab can always be read from a typed row. -/
theorem exists_tabLabel {row : Entries} (h : IsTyped row) (place : Nat) :
    ∃ label, tabLabel row place = .ok label := by
  unfold tabLabel
  split
  · exact ⟨_, rfl⟩
  · unfold Value.orElse
    split
    · -- A name that counts is a text, which is made into a label.
      rename_i htruthy
      rcases HasTexts.get h "fieldname" (by simp) with hnull | ⟨s, hs⟩
      · rw [hnull] at htruthy
        exact absurd htruthy Bool.false_ne_true
      · rw [hs]
        exact ⟨_, rfl⟩
    · exact ⟨_, rfl⟩

/-- The kind of a typed row is always known. -/
theorem exists_ofRow {row : Entries} (h : IsTyped row) : ∃ kind, RowKind.ofRow row = .ok kind :=
  ⟨_, ofRow_eq_ok.2 ⟨h.isKey_type, rfl⟩⟩

/-- A typed row always makes a step in the layout. -/
theorem exists_step {row : Entries} (h : IsTyped row) (s : OpenSection) (place : Nat) :
    ∃ made, s.step row place = .ok made := by
  obtain ⟨kind, hkind⟩ := exists_ofRow h
  cases kind with
  | tab =>
    obtain ⟨label, hlabel⟩ := exists_tabLabel h place
    exact ⟨_, bind_eq_ok.2 ⟨_, hkind, bind_eq_ok.2 ⟨label, hlabel, rfl⟩⟩⟩
  | field =>
    -- Only data rows are fields, and these have names.
    have hnamed : isNamed row = true :=
      (Bool.and_eq_true _ _ ▸ (eq_field_iff_isData hkind).1 rfl : _ ∧ _).2
    obtain ⟨f, hf⟩ := exists_describe h hnamed s.column ""
    exact ⟨_, bind_eq_ok.2 ⟨_, hkind, bind_eq_ok.2 ⟨f, hf, rfl⟩⟩⟩
  | _ => exact ⟨_, bind_eq_ok.2 ⟨_, hkind, rfl⟩⟩

/-- **Typed rows always have a layout.** What a row does to the open section depends on its type,
and data rows describe their fields without fault. -/
theorem exists_formSections {rows : List Entries} (h : ∀ row ∈ rows, IsTyped row) :
    ∃ made, formSections (rows.map .record) = .ok made := by
  -- The rows are filled into whatever section is open.
  suffices hfill : ∀ (s : OpenSection) (place : Nat),
      ∃ made, s.fill place (rows.map .record) = .ok made from hfill .start 0
  induction rows with
  | nil => exact fun s place => ⟨_, rfl⟩
  | cons row rows ih =>
    obtain ⟨hrow, hrows⟩ := List.forall_mem_cons.1 h
    intro s place
    obtain ⟨⟨closed, t, warnings⟩, hstep⟩ := exists_step hrow s place
    obtain ⟨⟨sections, more⟩, hfill⟩ := ih hrows t (place + 1)
    exact ⟨_, bind_eq_ok.2 ⟨row, rfl, bind_eq_ok.2 ⟨_, hstep, bind_eq_ok.2 ⟨_, hfill, rfl⟩⟩⟩⟩

/-! ## Child tables -/

/-- The rows of a child table that are typed always describe fields. -/
theorem exists_describeChild {rows : List Entries} (h : ∀ row ∈ rows, IsTyped row)
    (prior : String) : ∃ described, describeChild prior (.list (rows.map .record)) =
      .ok described := by
  obtain ⟨unnamed, hsplit⟩ := exists_splitRows 0 h
  have hdescribed : ∀ row ∈ rows.filter isData, ∃ f, Field.describe row 0 prior = .ok f := by
    intro row hrow
    have hnamed : isNamed row = true :=
      (Bool.and_eq_true _ _ ▸ (List.mem_filter.1 hrow).2 : _ ∧ _).2
    exact exists_describe (h row (List.mem_of_mem_filter hrow)) hnamed 0 prior
  obtain ⟨fields, hfields⟩ := exists_mapM_eq_ok hdescribed
  exact ⟨_, bind_eq_ok.2 ⟨_, rfl, bind_eq_ok.2 ⟨_, hsplit, bind_eq_ok.2 ⟨_, hfields, rfl⟩⟩⟩⟩

/-- For every entity the source gives typed rows or an error. -/
def Source.GivesTypedRows (source : Source) : Prop :=
  ∀ entity, (∃ e, source.fetch .fieldList entity = .error (.error e)) ∨
    ∃ rows : List Entries, source.fetch .fieldList entity = .ok (.list (rows.map .record)) ∧
      ∀ row ∈ rows, IsTyped row

/-- **The child tables of typed rows can be made.** A child entity that the source does not give has
an empty table instead, which is not a failure. -/
theorem outcome_childTables_of_isTyped {source : Source} (hsource : source.GivesTypedRows)
    {rows : List Entries} (h : ∀ row ∈ rows, IsTyped row) :
    ∃ made, (childTables source [] [] rows).outcome = .ok made := by
  have hkeyed : AreKeyed rows :=
    ⟨fun row hrow => (h row hrow).isKey_type, fun row hrow => (h row hrow).isKey_name⟩
  have htable : ∀ t ∈ tableFields rows, ∃ table, tableOf source t = .ok table := by
    intro t _
    rw [exists_tableOf_iff]
    rcases hsource t.2 with ⟨e, he⟩ | ⟨childRows, hrows, htyped⟩
    · -- What cannot be fetched leaves a table without fields.
      rw [he]
      exact ⟨fun f => by simp, fun v => by simp⟩
    · rw [hrows]
      refine ⟨fun f => by simp, fun v hv => ?_⟩
      rw [← Except.ok.inj hv]
      exact exists_describeChild htyped _
  obtain ⟨made, hmade⟩ := exists_mapM_eq_ok htable
  have hnone : Children.IsAnswered source [] := by simp [Children.IsAnswered]
  obtain ⟨warnings, houtcome, -⟩ := outcome_childTables_of_ok hkeyed hnone [] hmade
  exact ⟨_, houtcome⟩

/-! ## Client scripts -/

/-- Scripts that are texts are always read, from every place on. -/
theorem exists_behaviorsFrom {scripts : List Entries}
    (h : ∀ script ∈ scripts, HasTexts ["script"] script) (names : List Value) (place : Nat) :
    ∃ found, behaviorsFrom names place (scripts.map .record) = .ok found := by
  induction scripts generalizing place with
  | nil => exact ⟨[], rfl⟩
  | cons script scripts ih =>
    obtain ⟨hscript, hscripts⟩ := List.forall_mem_cons.1 h
    have htext : ∃ s, scriptText (script.get "script") = .ok s := by
      rcases hscript.get "script" (by simp) with hnull | ⟨s, hs⟩
      · rw [hnull]
        exact ⟨_, rfl⟩
      · rw [hs]
        exact ⟨_, rfl⟩
    obtain ⟨s, hs⟩ := htext
    obtain ⟨found, hfound⟩ := ih hscripts (place + 1)
    refine exists_bind_eq_ok (a := script) rfl ?_
    split
    · exact exists_bind_eq_ok hs (exists_bind_eq_ok hfound ⟨_, rfl⟩)
    · exact ⟨found, hfound⟩

/-- **Scripts that are texts are always read** for names that can be keys. -/
theorem exists_behaviors {scripts : Value} (h : AreRows (HasTexts ["script"]) scripts)
    {names : List Value} (hnames : ∀ name ∈ names, name.isKey = true) :
    ∃ found, behaviors scripts names = .ok found := by
  have hkeys : (names.forM fun v => do let _ ← v.key : Except Fault Unit) = .ok () := by
    induction names with
    | nil => rfl
    | cons name names ih =>
      obtain ⟨hname, hrest⟩ := List.forall_mem_cons.1 hnames
      have hkey : name.key = .ok name := key_eq_ok.2 ⟨hname, rfl⟩
      exact bind_eq_ok.2 ⟨(), bind_eq_ok.2 ⟨name, hkey, rfl⟩, ih hrest⟩
  exact exists_bind_eq_ok hkeys
    (exists_bind_eq_ok h.elementsOrNone (exists_behaviorsFrom h.forall_mem names 0))

end FormScaffold
