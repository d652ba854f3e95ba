import FormScaffold.Proofs.Contract.Assembling
import FormScaffold.Proofs.Json.WellFormed
import Mathlib.Data.List.Nodup

/-! # Names in contracts

Fields and roles are named by texts, each different from the others. When the metadata of a source
repeats no key and no name, its contracts repeat none either.

* **`AreNames`** — texts, each different from the others;
* `Keyed.ofList_eq_self` — things under different names are kept as they come;
* **`Source.IsPlain`**, **`Contract.IsPlain`** — names are texts and none is repeated;
* `isPlain_of_askEntity`, `isPlain_ownParts` — what a plain source answers, and the parts made of
  it;
* **`isPlain_of_build`** — the contracts of a plain source are plain. -/

namespace FormScaffold

open Json

/-! ## Names -/

/-- The values are texts, each different from the others. -/
structure AreNames (vs : List Value) : Prop where
  text : ∀ v ∈ vs, ∃ s, v = .text s
  nodup : vs.Nodup

/-- Some of several names are names. -/
theorem AreNames.sublist {vs ws : List Value} (h : AreNames ws) (hsub : vs.Sublist ws) :
    AreNames vs :=
  ⟨fun v hv => h.text v (hsub.subset hv), h.nodup.sublist hsub⟩

/-- The order of names does not matter. -/
theorem AreNames.perm {vs ws : List Value} (h : AreNames ws) (hperm : vs.Perm ws) :
    AreNames vs :=
  ⟨fun v hv => h.text v (hperm.subset hv), hperm.nodup_iff.2 h.nodup⟩

/-- Names are different keys. -/
theorem AreNames.nodup_keyText {vs : List Value} (h : AreNames vs) : (vs.map keyText).Nodup := by
  refine h.nodup.map_on fun v hv w hw heq => ?_
  obtain ⟨s, rfl⟩ := h.text v hv
  obtain ⟨t, rfl⟩ := h.text w hw
  rw [keyText_text, keyText_text] at heq
  rw [heq]

/-- What is the same as a text is this text. -/
theorem same_text {s : String} {v : Value} (h : v.same (.text s) = true) : v = .text s := by
  cases v <;> simp_all [Value.same, Value.sameScalar, Value.scalar?, Value.isNull]

namespace Keyed

variable {α : Type}

/-- What stands under a key is found at its first place. -/
theorem get?_cons (k : Value) (a : α) (m : Keyed α) (key : Value) :
    get? ((k, a) :: m) key = if k.same key then some a else m.get? key := by
  rw [get?, List.find?_cons]
  cases k.same key <;> rfl

/-- A key that is not there is put at the end. -/
theorem put_of_not_mem {m : Keyed α} {key : Value} (hnames : ∃ s, key = .text s)
    (h : key ∉ m.keys) (a : α) : m.put key a = m ++ [(key, a)] := by
  obtain ⟨s, rfl⟩ := hnames
  induction m with
  | nil => rfl
  | cons p m ih =>
    obtain ⟨k, old⟩ := p
    rw [keys, List.map_cons, List.mem_cons, not_or] at h
    have hk : k.same (.text s) = false := by
      by_contra hsame
      exact h.1 (same_text (by simpa using hsame)).symm
    rw [put, hk, if_neg Bool.false_ne_true, ih h.2]
    rfl

/-- Things under new names are put one behind the other. -/
theorem foldl_put {made pairs : Keyed α} (h : AreNames (keys (made ++ pairs))) :
    pairs.foldl (fun m p => put m p.1 p.2) made = made ++ pairs := by
  induction pairs generalizing made with
  | nil => simp
  | cons p pairs ih =>
    have hsplit : made ++ p :: pairs = made ++ [p] ++ pairs := by simp
    have hp : p.1 ∉ made.keys := by
      have hnodup := h.nodup
      rw [keys, List.map_append, List.nodup_append] at hnodup
      exact fun hmem => hnodup.2.2 _ hmem _ (by simp) rfl
    have htext : ∃ s, p.1 = .text s := h.text _ (by simp [keys])
    rw [List.foldl_cons, put_of_not_mem htext hp, hsplit]
    exact ih (hsplit ▸ h)

/-- Under different names everything is kept as it comes. -/
theorem ofList_eq_self {pairs : List (Value × α)} (h : AreNames (pairs.map (·.1))) :
    ofList pairs = pairs :=
  foldl_put (show AreNames (keys ([] ++ pairs)) from h)

end Keyed

/-! ## Rows -/

/-- The names of the rows that have usable ones. -/
def namesOf (rows : List Entries) : List Value :=
  (rows.filter isNamed).map (·.get "fieldname")

/-- **In what a source answers no record repeats a key, and the names of fields and of roles are
texts, each different from the others.** -/
structure Source.IsPlain (source : Source) : Prop where
  wellFormed : ∀ part entity v, source.fetch part entity = .ok v → IsWellFormed v
  names : ∀ entity v rows, source.fetch .fieldList entity = .ok v → rawRows v = .ok rows →
    AreNames (namesOf rows)
  roles : ∀ entity grouped, source.permissions entity = .ok grouped →
    AreNames (grouped.keys.filter Value.truthy)

/-- **The names in a contract are texts, each different from the others where it stands**, and no
default repeats a key. -/
structure Contract.IsPlain (c : Contract) : Prop where
  fields : AreNames (c.fields.map (·.name))
  defaults : ∀ f ∈ c.fields, IsWellFormed f.default
  columns : ∀ col ∈ c.columns, ∃ s, col.name = .text s
  filters : AreNames (c.filters.map (·.name))
  filterDefaults : ∀ f ∈ c.filters, IsWellFormed f.default
  tables : AreNames c.childTables.keys
  tableFields : ∀ p ∈ c.childTables, AreNames (p.2.fields.map (·.name))
  roles : AreNames c.permissions.keys

/-- The rows of a well-formed list are well-formed, be they written as records or as pairs. -/
theorem isWellFormed_of_rawRows {v : Value} (h : IsWellFormed v) {rows : List Entries}
    (hrows : rawRows v = .ok rows) : ∀ row ∈ rows, IsWellFormed (.record row) := by
  obtain ⟨vs, hvs, hrows⟩ := bind_eq_ok.1 hrows
  intro row hrow
  obtain ⟨w, hw, hrow⟩ := exists_of_mem_mapM hrows hrow
  exact isWellFormed_asRecord (isWellFormed_of_mem_elementsOrNone h hvs w hw) hrow

/-! ### Overrides -/

/-- A row after patches: its name is the same, and it repeats a key only when it did before. -/
structure IsPatched (row patched : Entries) : Prop where
  name : patched.get "fieldname" = row.get "fieldname"
  wellFormed : IsWellFormed (.record row) → IsWellFormed (.record patched)

/-- A row is patched by nothing. -/
theorem IsPatched.refl (row : Entries) : IsPatched row row := ⟨rfl, id⟩

/-- A row that is patched twice is patched. -/
theorem IsPatched.trans {a b c : Entries} (hab : IsPatched a b) (hbc : IsPatched b c) :
    IsPatched a c :=
  ⟨hbc.name.trans hab.name, fun h => hbc.wellFormed (hab.wellFormed h)⟩

/-- A patch with well-formed values patches a row: it never sets the name. -/
theorem isPatched_patchRow {patch : Entries} (h : ∀ e ∈ patch, IsWellFormed e.2) (row : Entries) :
    IsPatched row (patchRow patch row) := by
  unfold patchRow
  induction patch generalizing row with
  | nil => exact .refl row
  | cons e patch ih =>
    obtain ⟨he, hpatch⟩ := List.forall_mem_cons.1 h
    refine IsPatched.trans ?_ (ih hpatch _)
    show IsPatched row (if (e.1 == "fieldname") = true then row else row.put e.1 e.2)
    split
    · exact .refl row
    · rename_i hname
      refine ⟨?_, fun hrow => isWellFormed_put hrow e.1 he⟩
      rw [Entries.get, Entries.get?_put, if_neg hname]
      rfl

/-- At most one row is changed. -/
theorem forall₂_modifyLast {p : Entries → Bool} {f : Entries → Entries}
    (hf : ∀ row, IsPatched row (f row)) {rows changed : List Entries}
    (h : modifyLast p f rows = some changed) : List.Forall₂ IsPatched rows changed := by
  induction rows generalizing changed with
  | nil => exact absurd h (by simp [modifyLast])
  | cons row rows ih =>
    rw [modifyLast] at h
    split at h
    · rename_i rest hrest
      rw [← Option.some.inj h]
      exact .cons (.refl row) (ih hrest)
    · split at h
      · rw [← Option.some.inj h]
        exact .cons (hf row) (List.forall₂_same.2 fun r _ => .refl r)
      · exact absurd h (by simp)

/-- One patch leaves all rows patched, those it does not mean by nothing. -/
theorem forall₂_applyPatch {patch : Entries} (h : ∀ e ∈ patch, IsWellFormed e.2)
    (rows : List Entries) : List.Forall₂ IsPatched rows (applyPatch rows patch).1 := by
  unfold applyPatch
  simp only
  split
  · rename_i changed hchanged
    exact forall₂_modifyLast (isPatched_patchRow h) hchanged
  · exact List.forall₂_same.2 fun row _ => .refl row

/-- Rows that are patched twice are patched, row by row. -/
theorem forall₂_trans {a b c : List Entries} (hab : List.Forall₂ IsPatched a b)
    (hbc : List.Forall₂ IsPatched b c) : List.Forall₂ IsPatched a c := by
  refine forall₂_of_forall₂ ?_ hab.flip hbc
  exact fun _ _ _ h h' => IsPatched.trans h h'

/-- Overrides leave all rows patched, row by row. -/
theorem forall₂_applyPatches {patches : List Value} (h : ∀ v ∈ patches, IsWellFormed v)
    {rows patched : List Entries} {warnings : List Warning}
    (hpatched : applyPatches rows patches = .ok (patched, warnings)) :
    List.Forall₂ IsPatched rows patched := by
  induction patches generalizing rows warnings with
  | nil =>
    obtain ⟨rfl, -⟩ := Prod.mk.inj (Except.ok.inj hpatched)
    exact List.forall₂_same.2 fun row _ => .refl row
  | cons v vs ih =>
    obtain ⟨hv, hvs⟩ := List.forall_mem_cons.1 h
    obtain ⟨patch, hpatch, hpatched⟩ := bind_eq_ok.1 hpatched
    obtain ⟨key, -, hpatched⟩ := bind_eq_ok.1 hpatched
    obtain ⟨⟨later, rest⟩, hlater, hpatched⟩ := bind_eq_ok.1 hpatched
    obtain ⟨rfl, -⟩ := Prod.mk.inj (Except.ok.inj hpatched)
    have hentries := (isWellFormed_record.1 (isWellFormed_entries hv hpatch)).2
    exact forall₂_trans (forall₂_applyPatch hentries rows) (ih hvs hlater)

/-- Patched rows have the names that they had. -/
theorem namesOf_of_forall₂ {rows patched : List Entries}
    (h : List.Forall₂ IsPatched rows patched) : namesOf patched = namesOf rows := by
  induction h with
  | nil => rfl
  | @cons row row' rows rows' hrow _ ih =>
    have hnamed : isNamed row' = isNamed row := by rw [isNamed, hrow.name, isNamed]
    unfold namesOf at ih ⊢
    rw [List.filter_cons, List.filter_cons, hnamed]
    split
    · rw [List.map_cons, List.map_cons, ih, hrow.name]
    · exact ih

/-- **Overrides neither rename a field nor repeat a key.** Row by row the name is the one that was
there, and the keys are those of the row and of the patches, each once. -/
theorem exists_of_applyOverrides {fields overrides : Value} (hfields : IsWellFormed fields)
    (hoverrides : IsWellFormed overrides) {rows : List Entries} {warnings : List Warning}
    (h : applyOverrides fields overrides = .ok (rows, warnings)) :
    ∃ raw, rawRows fields = .ok raw ∧ namesOf rows = namesOf raw ∧
      ∀ row ∈ rows, IsWellFormed (.record row) := by
  obtain ⟨vs, hvs, h⟩ := bind_eq_ok.1 h
  obtain ⟨raw, hraw, h⟩ := bind_eq_ok.1 h
  obtain ⟨-, -, h⟩ := bind_eq_ok.1 h
  obtain ⟨patches, hpatches, h⟩ := bind_eq_ok.1 h
  have hrows : rawRows fields = .ok raw := bind_eq_ok.2 ⟨vs, hvs, hraw⟩
  have hpatched := forall₂_applyPatches (isWellFormed_of_mem_elementsOrNone hoverrides hpatches) h
  refine ⟨raw, hrows, namesOf_of_forall₂ hpatched, fun row hrow => ?_⟩
  obtain ⟨r, hr, hpatch⟩ := exists_of_mem_forall₂ hpatched hrow
  exact hpatch.wellFormed (isWellFormed_of_rawRows hfields hrows r hr)

/-! ## Parts of a contract -/

/-! ### The list -/

/-- Rows that are placed are among the rows. -/
theorem mem_of_mem_placeRows {place : Nat} {rows : List Entries} {placed : List Placed}
    (h : placeRows place rows = .ok placed) : ∀ p ∈ placed, p.raw ∈ rows := by
  induction rows generalizing place placed with
  | nil =>
    rw [← Except.ok.inj h]
    simp
  | cons row rows ih =>
    rw [placeRows] at h
    split at h
    · obtain ⟨index, -, h⟩ := bind_eq_ok.1 h
      obtain ⟨rest, hrest, h⟩ := bind_eq_ok.1 h
      rw [← Except.ok.inj h, List.forall_mem_cons]
      exact ⟨List.mem_cons_self, fun p hp => List.mem_cons_of_mem _ (ih hrest p hp)⟩
    · exact fun p hp => List.mem_cons_of_mem _ (ih h p hp)

/-- A column is named like a row. -/
theorem exists_of_mem_listColumns {rows : List Entries} {cols : List Column}
    (h : listColumns rows = .ok cols) :
    ∀ col ∈ cols, ∃ row ∈ rows, col.name = row.get "fieldname" := by
  obtain ⟨placed, hplaced, h⟩ := bind_eq_ok.1 h
  intro col hcol
  obtain ⟨p, hp, hcol⟩ := exists_of_mem_mapM h hcol
  obtain ⟨label, -, hcol⟩ := bind_eq_ok.1 hcol
  refine ⟨p.raw, mem_of_mem_placeRows hplaced p ((List.mem_mergeSort).1 hp), ?_⟩
  rw [← Except.ok.inj hcol]

/-- The filters are those of some of the rows, in their order. -/
theorem forall₂_listFilters {rows : List Entries} {filters : List Filter}
    (h : listFilters rows = .ok filters) :
    List.Forall₂ (fun row f => f.name = row.get "fieldname" ∧ f.default = row.get "default")
      (rows.filter fun raw => (raw.get "in_standard_filter").flag) filters := by
  refine (mapM_eq_ok.1 h).imp fun row f hf => ?_
  obtain ⟨label, -, hf⟩ := bind_eq_ok.1 hf
  rw [← Except.ok.inj hf]
  exact ⟨rfl, rfl⟩

/-! ### Child tables -/

/-- Table fields are named like rows. -/
theorem sublist_tableFields (rows : List Entries) :
    ((tableFields rows).map (·.1)).Sublist (rows.map (·.get "fieldname")) := by
  induction rows with
  | nil => exact .slnil
  | cons row rows ih =>
    rw [tableFields_cons, List.map_cons]
    split
    · exact ih.cons_cons _
    · exact ih.cons _

/-- The names of the data rows are among the usable names. -/
theorem sublist_namesOf (rows : List Entries) :
    ((rows.filter isData).map (·.get "fieldname")).Sublist (namesOf rows) := by
  refine (List.monotone_filter_right rows fun row hrow => ?_).map _
  exact (Bool.and_eq_true _ _ ▸ hrow : _ ∧ _).2

/-- The data rows of a child entity have names of their own. -/
theorem areNames_childRows {source : Source} (hsource : source.IsPlain) (child : String) :
    AreNames ((source.childRows child).map (·.get "fieldname")) := by
  have hnone : AreNames (([] : List Entries).map (·.get "fieldname")) := ⟨by simp, List.nodup_nil⟩
  unfold Source.childRows
  split
  · rename_i v hv
    split
    · rename_i rows hrows
      exact (hsource.names child v rows hv hrows).sublist (sublist_namesOf rows)
    · exact hnone
  · exact hnone

/-! ### Roles -/

/-- The rules of a source stand under its roles. -/
theorem keys_rulesAsValues (grouped : Keyed (List Entries)) :
    (rulesAsValues grouped).keys = grouped.keys := by
  simp [rulesAsValues, Keyed.mapValues, Keyed.keys, Function.comp_def]

/-- The roles of merged permissions are those that have names. -/
theorem areNames_mergePermissions {rules : Keyed Value}
    (h : AreNames (rules.keys.filter Value.truthy)) {permissions : Keyed Grants}
    (hmerged : mergePermissions rules = .ok permissions) : AreNames permissions.keys := by
  obtain ⟨roles, hroles, hmerged⟩ := bind_eq_ok.1 hmerged
  have hperm : roles.Perm (rules.keys.filter Value.truthy) := by
    unfold sortKeys at hroles
    split at hroles
    · rw [← Except.ok.inj hroles]
      exact List.mergeSort_perm _ _
    · exact absurd hroles (by simp)
  have hkeys : permissions.keys = roles := by
    refine (map_eq_map_of_forall₂ ((mapM_eq_ok.1 hmerged).imp fun role p hp => ?_)).trans
      (List.map_id roles)
    obtain ⟨grants, -, hp⟩ := bind_eq_ok.1 hp
    rw [← Except.ok.inj hp]
    rfl
  rw [hkeys]
  exact h.perm hperm

/-! ## The answers about an entity -/

/-- What a source answers about permissions is what is asked of it. -/
theorem outcome_askPermissions_eq_ok {source : Source} {entity : String}
    {grouped : Keyed (List Entries)} :
    (askPermissions source entity).outcome = .ok grouped ↔
      source.permissions entity = .ok grouped :=
  mapError_eq_ok

/-- No answer repeats a key, and the names of fields and of roles are texts, each different from the
others. -/
structure RawEntity.IsPlain (raw : RawEntity) : Prop where
  fields : IsWellFormed raw.fields
  overrides : IsWellFormed raw.overrides
  names : ∀ rows, rawRows raw.fields = .ok rows → AreNames (namesOf rows)
  roles : AreNames (raw.permissions.keys.filter Value.truthy)

/-- What a plain source answers is plain. -/
theorem isPlain_of_askEntity {source : Source} (hsource : source.IsPlain) {entity : String}
    {raw : RawEntity} (h : (askEntity source entity).outcome = .ok raw) : raw.IsPlain := by
  obtain ⟨fields, hfields, h⟩ := Traced.outcome_bind_eq_ok.1 h
  obtain ⟨overrides, hoverrides, h⟩ := Traced.outcome_bind_eq_ok.1 h
  obtain ⟨scripts, -, h⟩ := Traced.outcome_bind_eq_ok.1 h
  obtain ⟨workflow, -, h⟩ := Traced.outcome_bind_eq_ok.1 h
  obtain ⟨grouped, hgrouped, h⟩ := Traced.outcome_bind_eq_ok.1 h
  obtain rfl := Except.ok.inj h
  have hfetched := outcome_askPart_eq_ok.1 hfields
  exact {
    fields := hsource.wellFormed _ _ _ hfetched
    overrides := hsource.wellFormed _ _ _ (outcome_askPart_eq_ok.1 hoverrides)
    names := fun rows hrows => hsource.names _ _ _ hfetched hrows
    roles := hsource.roles _ _ (outcome_askPermissions_eq_ok.1 hgrouped) }

/-- The names in the parts of a contract are texts, each different from the others where it stands,
and neither a row nor a default repeats a key. -/
structure OwnParts.IsPlain (own : OwnParts) : Prop where
  names : AreNames (own.rows.map (·.get "fieldname"))
  rows : ∀ row ∈ own.rows, IsWellFormed (.record row)
  fields : AreNames ((own.sections.flatMap (·.fields)).map (·.name))
  defaults : ∀ f ∈ own.sections.flatMap (·.fields), IsWellFormed f.default
  columns : ∀ col ∈ own.columns, ∃ s, col.name = .text s
  filters : AreNames (own.filters.map (·.name))
  filterDefaults : ∀ f ∈ own.filters, IsWellFormed f.default
  roles : AreNames own.permissions.keys

/-- The data rows are well-formed, and named as the source names them. -/
theorem isPlain_dataRows {raw : RawEntity} (hraw : raw.IsPlain) {own : OwnParts}
    (h : ownParts raw = .ok own) :
    AreNames (own.rows.map (·.get "fieldname")) ∧
      ∀ row ∈ own.rows, IsWellFormed (.record row) := by
  obtain ⟨rows, _, _, _, hrows, hdata, -⟩ := exists_of_ownParts h
  obtain ⟨all, hall, hnames, hwell⟩ := exists_of_applyOverrides hraw.fields hraw.overrides hrows
  rw [filter_of_splitRows hdata]
  refine ⟨AreNames.sublist ?_ (sublist_namesOf rows), fun row hrow =>
    hwell row (List.mem_of_mem_filter hrow)⟩
  exact hnames ▸ hraw.names all hall

/-- The parts that plain answers give are plain. -/
theorem isPlain_ownParts {raw : RawEntity} (hraw : raw.IsPlain) {own : OwnParts}
    (h : ownParts raw = .ok own) : own.IsPlain := by
  obtain ⟨hnames, hrows⟩ := isPlain_dataRows hraw h
  obtain ⟨_, _, _, _, -, -, hcolumns, hfilters, -, hmerged, -⟩ := exists_of_ownParts h
  obtain ⟨hform, -, -⟩ := describes_of_ownParts h
  have hlisted := forall₂_listFilters hfilters
  -- Fields, columns and filters have names of rows, and their defaults are data of rows.
  exact {
    names := hnames
    rows := hrows
    fields := by
      rw [map_name_of_describes hform]
      exact hnames
    defaults := by
      intro f hf
      obtain ⟨row, hrow, hdescribes⟩ := exists_of_mem_forall₂ hform hf
      rw [hdescribes.default]
      exact isWellFormed_get (hrows row hrow) _
    columns := by
      intro col hcol
      obtain ⟨row, hrow, hname⟩ := exists_of_mem_listColumns hcolumns col hcol
      rw [hname]
      exact hnames.text _ (List.mem_map_of_mem hrow)
    filters := by
      rw [map_eq_map_of_forall₂ (hlisted.imp fun _ _ hf => hf.1)]
      exact hnames.sublist (List.filter_sublist.map _)
    filterDefaults := by
      intro f hf
      obtain ⟨row, hrow, -, hdefault⟩ := exists_of_mem_forall₂ hlisted hf
      rw [hdefault]
      exact isWellFormed_get (hrows row (List.mem_of_mem_filter hrow)) _
    roles := areNames_mergePermissions (keys_rulesAsValues raw.permissions ▸ hraw.roles) hmerged }

/-! ## Contracts -/

/-- **The contracts of a plain source are plain.** What the contract takes over from the source
under names has names of its own: fields, columns, filters, child tables and roles. -/
theorem isPlain_of_build {source : Source} (hsource : source.IsPlain) {entity : String}
    {preset : Option String} {c : Contract} (h : Contract.build source entity preset = .ok c) :
    c.IsPlain := by
  obtain ⟨-, p, own, tables, warnings, -, hown, -, htables, rfl⟩ := build_eq_ok.1 h
  obtain ⟨⟨made, rfl, hmade⟩, -, -⟩ := tabulates_of_childTables hown htables
  obtain ⟨raw, hraw, hparts⟩ := bind_eq_ok.1 hown
  have hplain := isPlain_ownParts (isPlain_of_askEntity hsource hraw) (mapError_eq_ok.1 hparts)
  have hkeys : AreNames (made.map (·.1)) := by
    rw [map_eq_map_of_forall₂ (hmade.imp fun _ _ hp => hp.name)]
    exact hplain.names.sublist (sublist_tableFields own.rows)
  -- Under different names the child tables are kept as they were made.
  rw [Keyed.ofList_eq_self hkeys]
  exact {
    fields := hplain.fields
    defaults := hplain.defaults
    columns := hplain.columns
    filters := hplain.filters
    filterDefaults := hplain.filterDefaults
    tables := hkeys
    tableFields := by
      intro p hp
      obtain ⟨t, -, htabulates⟩ := exists_of_mem_forall₂ hmade hp
      rw [map_name_of_describes htabulates.fields]
      exact areNames_childRows hsource t.2
    roles := hplain.roles }

end FormScaffold
