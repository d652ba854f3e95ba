import FormScaffold.Proofs.Contract.Assembling
import FormScaffold.Proofs.Number.Text
import FormScaffold.Proofs.Value.Likeness

/-! # Types of fields

Whether a row lays out the form, or holds a table, is decided by its type as it stands, while the
field that is made from the row has this type without the blanks around it. Where the blanks make a
difference, a field of the form has the type of a break, and a table has no rows.

* **`IsPadded`** — a type that is one of a few but for the blanks around it;
* `typeOf_mem_iff` — when the type of a field is one of the names that mean something;
* `tableWithoutOptions_mem_iff` — which table fields are warned of;
* **`types_of_build`** — no field of a contract has the type of a break, and every table field is
  served, if and only if no type is padded, tables of a name apart that is served anyway. -/

namespace FormScaffold

open Text

/-! ## Characters of labels -/

/-- What is left after blanks are taken away was there before. -/
theorem mem_of_mem_trim {cs : List Char} {c : Char} (h : c ∈ trim cs) : c ∈ cs :=
  (List.dropWhile_sublist _).subset
    (List.mem_reverse.1 ((List.dropWhile_sublist _).subset (List.mem_reverse.1 h)))

/-- What is left out at the start is blank. -/
theorem mem_dropWhile {α : Type} {p : α → Bool} {xs : List α} {x : α} (h : x ∈ xs)
    (hx : p x = false) : x ∈ xs.dropWhile p := by
  rw [← List.takeWhile_append_dropWhile (p := p) (l := xs), List.mem_append] at h
  refine h.resolve_left fun htake => ?_
  rw [List.mem_takeWhile_imp htake] at hx
  exact absurd hx (by simp)

/-- What is no blank is not left out. -/
theorem mem_trim {cs : List Char} {c : Char} (h : c ∈ cs) (hc : isBlank c = false) :
    c ∈ trim cs :=
  List.mem_reverse.2 (mem_dropWhile (List.mem_reverse.2 (mem_dropWhile h hc)) hc)

/-! ## Types -/

/-- The types that mean something. -/
def namedTypes : List String := layoutTypes ++ tableTypes

/-- **The type of the row is none of the given ones, but becomes one without the blanks around
it.** -/
def IsPadded (types : List String) (row : Entries) : Prop :=
  ∃ s, row.get "fieldtype" = .text s ∧ s ∉ types ∧ strip s ∈ types

/-- The capital letters of the names of types. -/
def isNameCapital (c : Char) : Bool := ['S', 'C', 'T', 'F'].contains c

/-- A text without these letters is no name of a type. -/
theorem not_named_of_forall {s : String} (h : ∀ c ∈ s.toList, (!isNameCapital c) = true) :
    strip s ∉ namedTypes := by
  have hcapital : ∀ t ∈ namedTypes, t.toList.any isNameCapital = true := by decide
  intro hmem
  obtain ⟨c, hc, hc'⟩ := List.any_eq_true.1 (hcapital _ hmem)
  rw [toList_strip] at hc
  have hnot := h c (mem_of_mem_trim hc)
  rw [hc'] at hnot
  exact absurd hnot (by decide)

/-- A text with a bracket is no name of a type. -/
theorem not_named_of_bracket {s : String} (h : '[' ∈ s.toList ∨ '\x7b' ∈ s.toList) :
    strip s ∉ namedTypes := by
  have hbracket : ∀ t ∈ namedTypes, '[' ∉ t.toList ∧ '\x7b' ∉ t.toList := by decide
  intro hmem
  obtain ⟨hlist, hrecord⟩ := hbracket _ hmem
  rw [toList_strip] at hlist hrecord
  rcases h with h | h
  · exact hlist (mem_trim h (by decide))
  · exact hrecord (mem_trim h (by decide))

/-- No digit is one of these letters. -/
theorem not_isNameCapital_of_isDigit (c : Char) (h : c.isDigit = true) :
    (!isNameCapital c) = true := by
  by_contra hcapital
  rw [Bool.not_eq_true', Bool.not_eq_false, isNameCapital, List.contains_iff_mem] at hcapital
  simp only [List.mem_cons, List.not_mem_nil, or_false] at hcapital
  rcases hcapital with rfl | rfl | rfl | rfl <;> exact absurd h (by decide)

/-- A value other than a text never reads as a name of a type. -/
theorem strip_display_not_named {v : Value} (hv : ∀ s, v ≠ .text s) (hnull : v ≠ .null) :
    strip v.display ∉ namedTypes := by
  have hdigits : ∀ n : Nat, ∀ c ∈ (toString n).toList, (!isNameCapital c) = true := by
    intro n
    rw [Nat.toString_eq_repr, Nat.toList_repr]
    exact Real64.forall_mem_toDigits not_isNameCapital_of_isDigit n
  -- Numbers are written without capitals of the names, and containers with a bracket.
  cases v with
  | null => exact absurd rfl hnull
  | text t => exact absurd rfl (hv t)
  | bool b => cases b <;> decide
  | int n =>
    refine not_named_of_forall ?_
    cases n with
    | ofNat n => exact hdigits n
    | negSucc n =>
      show ∀ c ∈ ("-" ++ toString (n + 1)).toList, _
      rw [String.toList_append]
      exact List.forall_mem_append.2 ⟨by decide, hdigits (n + 1)⟩
  | real x =>
    refine not_named_of_forall ?_
    cases x with
    | nan => decide
    | infinite negative => cases negative <;> decide
    | finite negative mantissa exponent =>
      show ∀ c ∈ (String.ofList _).toList, _
      rw [String.toList_ofList]
      exact Real64.forall_mem_finiteText not_isNameCapital_of_isDigit (by decide) _ _ _
  | list items => exact not_named_of_bracket (.inl (by simp [Value.display, Value.quoted]))
  | record es => exact not_named_of_bracket (.inr (by simp [Value.display, Value.quoted]))

/-- **A field has the type of a name when its row has this type, blanks around it apart.** The type
of a field is stripped, while the break test looks at the type as it is. -/
theorem typeOf_mem_iff {types : List String} (htypes : ∀ t ∈ types, t ∈ namedTypes)
    (row : Entries) :
    typeOf row ∈ types ↔ ∃ s, row.get "fieldtype" = .text s ∧ strip s ∈ types := by
  have hdata : "Data" ∉ types := fun h => absurd (htypes _ h) (by decide)
  have hempty : "" ∉ types := fun h => absurd (htypes _ h) (by decide)
  unfold typeOf
  generalize row.get "fieldtype" = v
  -- What is no text is shown as a text first, or has the type of data.
  by_cases htext : ∃ s, v = .text s
  · obtain ⟨s, rfl⟩ := htext
    have hlabel : (Value.text s).label? = if strip s == "" then none else some (strip s) := rfl
    rw [hlabel]
    split
    · rename_i hblank
      simp [hdata, beq_iff_eq.1 hblank, hempty]
    · simp
  · refine iff_of_false ?_ fun ⟨s, hs, _⟩ => htext ⟨s, hs⟩
    unfold Value.label?
    split
    · exact hdata
    · rename_i hnull
      simp only
      split
      · exact hdata
      · exact fun hmem => strip_display_not_named (fun t ht => htext ⟨t, ht⟩) hnull
          (htypes _ hmem)

/-- The type of a field is that of its row. -/
theorem IsMade.type_eq {row : Entries} {f : Field} (h : IsMade row f) : f.type = typeOf row := by
  obtain ⟨column, prior, h⟩ := h
  obtain ⟨label, -, h⟩ := bind_eq_ok.1 h
  rw [← Except.ok.inj h]

/-- The name of a field is that of its row. -/
theorem IsMade.name_eq {row : Entries} {f : Field} (h : IsMade row f) :
    f.name = row.get "fieldname" :=
  h.describes.name

/-- A field of a row has the type of a name when the type of the row is this name or padded. -/
theorem IsMade.type_mem_iff {types : List String} (htypes : ∀ t ∈ types, t ∈ namedTypes)
    {row : Entries} {f : Field} (h : IsMade row f) :
    f.type ∈ types ↔ isAmong types (row.get "fieldtype") = true ∨ IsPadded types row := by
  have hstrip : ∀ t ∈ types, strip t = t := by
    have hnamed : ∀ t ∈ namedTypes, strip t = t := by decide
    exact fun t ht => hnamed t (htypes t ht)
  rw [h.type_eq, typeOf_mem_iff htypes, isAmong_eq_true]
  constructor
  · rintro ⟨s, hs, hmem⟩
    by_cases hexact : s ∈ types
    · exact .inl ⟨s, hs, hexact⟩
    · exact .inr ⟨s, hs, hexact, hmem⟩
  · rintro (⟨s, hs, hmem⟩ | ⟨s, hs, -, hmem⟩)
    · exact ⟨s, hs, (hstrip s hmem).symm ▸ hmem⟩
    · exact ⟨s, hs, hmem⟩

/-- **Fields of data rows have types of breaks just when rows have padded ones.** A padded type of a
break passes for data, because the test for breaks does not strip it. -/
theorem forall_not_layout_iff {rows : List Entries} {fields : List Field}
    (h : List.Forall₂ IsMade rows fields) (hdata : ∀ row ∈ rows, isData row = true) :
    (∀ f ∈ fields, f.type ∉ layoutTypes) ↔ ∀ row ∈ rows, ¬IsPadded layoutTypes row := by
  have htypes : ∀ t ∈ layoutTypes, t ∈ namedTypes := fun t ht => List.mem_append_left _ ht
  -- No data row has a break's type as it stands.
  have hmade : ∀ {row f}, row ∈ rows → IsMade row f →
      (f.type ∈ layoutTypes ↔ IsPadded layoutTypes row) := by
    intro row f hrow hf
    have hnone := hdata row hrow
    rw [isData, Bool.and_eq_true, Bool.not_eq_true'] at hnone
    rw [hf.type_mem_iff htypes, hnone.1]
    simp
  constructor
  · intro hfields row hrow hpadded
    obtain ⟨f, hf, hrowf⟩ := exists_of_mem_forall₂ h.flip hrow
    exact hfields f hf ((hmade hrow hrowf).2 hpadded)
  · intro hrows f hf htype
    obtain ⟨row, hrow, hrowf⟩ := exists_of_mem_forall₂ h hf
    exact hrows row hrow ((hmade hrow hrowf).1 htype)

/-! ## Warnings -/

/-- No step of the layout warns of a table without a child entity. -/
theorem code_of_step {s t : OpenSection} {row : Entries} {place : Nat} {closed : List FormSection}
    {warnings : List Warning} (h : s.step row place = .ok (closed, t, warnings)) :
    ∀ w ∈ warnings, w.code ≠ "table_without_options" := by
  -- A break is warned of with a code of its own.
  have hbreak : ∀ w ∈ breakWarning row place, w.code ≠ "table_without_options" := by
    unfold breakWarning
    split
    · split
      · exact List.forall_mem_singleton.2 (by simp [Warning.code])
      · simp
    · simp
  have hnone : ∀ w ∈ ([] : List Warning), w.code ≠ "table_without_options" := by simp
  obtain ⟨kind, -, h⟩ := bind_eq_ok.1 h
  cases kind with
  | tab =>
    obtain ⟨label, -, h⟩ := bind_eq_ok.1 h
    cases h
    exact hbreak
  | field =>
    obtain ⟨f, -, h⟩ := bind_eq_ok.1 h
    cases h
    exact List.forall_mem_map.2 fun d _ => by simp [Warning.code]
  | column =>
    cases h
    exact hnone
  | layout =>
    cases h
    exact hnone
  | unnamed =>
    cases h
    exact hnone
  | _ =>
    cases h
    exact hbreak

/-- The layout never warns of a table without a child entity. -/
theorem code_of_fill {s : OpenSection} {place : Nat} {vs : List Value}
    {sections : List FormSection} {warnings : List Warning}
    (h : s.fill place vs = .ok (sections, warnings)) :
    ∀ w ∈ warnings, w.code ≠ "table_without_options" := by
  induction vs generalizing s place sections warnings with
  | nil =>
    cases h
    simp
  | cons v vs ih =>
    obtain ⟨raw, -, h⟩ := bind_eq_ok.1 h
    obtain ⟨⟨closed, t, first⟩, hstep, h⟩ := bind_eq_ok.1 h
    obtain ⟨⟨later, more⟩, hfill, h⟩ := bind_eq_ok.1 h
    cases h
    exact List.forall_mem_append.2 ⟨code_of_step hstep, ih hfill⟩

/-- The entity's own warnings are not about its tables. -/
theorem code_of_ownParts {raw : RawEntity} {own : OwnParts} (h : ownParts raw = .ok own) :
    ∀ w ∈ own.rowWarnings ++ own.workflowWarnings, w.code ≠ "table_without_options" := by
  obtain ⟨rows, overrideWarnings, unnamed, sectionWarnings, hrows, -, -, -, hsections, -,
    hworkflow, -, hwarnings⟩ := exists_of_ownParts h
  rw [hwarnings]
  refine List.forall_mem_append.2 ⟨List.forall_mem_append.2 ⟨List.forall_mem_append.2
    ⟨?_, ?_⟩, code_of_fill hsections⟩, ?_⟩
  · intro w hw
    rw [code_of_applyOverrides hrows w hw]
    decide
  · exact List.forall_mem_map.2 fun place _ => by simp [Warning.code]
  · intro w hw
    rw [code_of_readWorkflow hworkflow w hw]
    decide

/-- Looking for a child entity never warns of a table without one: what it warns of is named. -/
theorem code_of_findChild {source : Source} {children known : Children} {child : String}
    {field : Value} {raw : Option Value} {warnings : List Warning}
    (h : (findChild source children child field).outcome = .ok (raw, known, warnings)) :
    ∀ w ∈ warnings, w.code ≠ "table_without_options" := by
  unfold findChild at h
  split at h
  · cases h
    simp
  · obtain ⟨answer, -, h⟩ := Traced.outcome_bind_eq_ok.1 h
    cases answer with
    | ok v =>
      cases h
      simp
    | error e =>
      cases h
      exact List.forall_mem_singleton.2 (by simp [Warning.code])

/-- Describing a child table never warns of a table without a child entity. -/
theorem code_of_childTable {field : Value} {child : String} {raw : Option Value}
    {table : ChildTable} {warnings : List Warning}
    (h : childTable field child raw = .ok (table, warnings)) :
    ∀ w ∈ warnings, w.code ≠ "table_without_options" := by
  cases raw with
  | none =>
    cases h
    simp
  | some v =>
    obtain ⟨⟨fields, described⟩, hdescribed, h⟩ := bind_eq_ok.1 h
    cases h
    obtain ⟨vs, -, hdescribed⟩ := bind_eq_ok.1 hdescribed
    obtain ⟨⟨rows, unnamed⟩, -, hdescribed⟩ := bind_eq_ok.1 hdescribed
    obtain ⟨made, -, hdescribed⟩ := bind_eq_ok.1 hdescribed
    cases hdescribed
    refine List.forall_mem_append.2
      ⟨List.forall_mem_map.2 fun place _ => by simp [Warning.code], ?_⟩
    intro w hw
    obtain ⟨row, -, hw⟩ := List.mem_flatMap.1 hw
    obtain ⟨d, -, rfl⟩ := List.mem_map.1 hw
    simp [Warning.code]

/-- **The table fields that are warned of** are those that name no child entity. Here the type is
looked at as it is, so that a padded table is not warned of. -/
theorem tableWithoutOptions_mem_iff {source : Source} {children : Children}
    {tables made : Keyed ChildTable} {rows : List Entries} {warnings : List Warning}
    (h : (childTables source children tables rows).outcome = .ok (made, warnings)) (name : Value) :
    .tableWithoutOptions name ∈ warnings ↔
      ∃ row ∈ rows, isAmong tableTypes (row.get "fieldtype") = true ∧
        (row.get "options").label? = none ∧ row.get "fieldname" = name := by
  induction rows generalizing children tables warnings with
  | nil =>
    cases h
    simp
  | cons row rows ih =>
    rw [List.exists_mem_cons_iff]
    obtain ⟨isTable, htype⟩ := hasType_of_childTables h
    obtain ⟨-, rfl⟩ := hasType_eq_ok.1 htype
    cases hamong : isAmong tableTypes (row.get "fieldtype") with
    | false =>
      rw [hamong] at htype
      rw [childTables_of_other htype] at h
      rw [ih h]
      simp
    | true =>
      rw [hamong] at htype
      cases hchild : (row.get "options").label? with
      | none =>
        rw [childTables_of_unnamed htype hchild] at h
        obtain ⟨⟨later, more⟩, hlater, h⟩ := Traced.outcome_bind_eq_ok.1 h
        cases h
        rw [List.mem_cons, ih hlater, Warning.tableWithoutOptions.injEq, @eq_comm _ name]
        simp
      | some child =>
        rw [childTables_of_child htype hchild] at h
        obtain ⟨⟨found, known, asked⟩, hfound, h⟩ := Traced.outcome_bind_eq_ok.1 h
        obtain ⟨⟨fields, described⟩, hdescribed, h⟩ := Traced.outcome_bind_eq_ok.1 h
        obtain ⟨key, -, h⟩ := Traced.outcome_bind_eq_ok.1 h
        obtain ⟨⟨later, more⟩, hlater, h⟩ := Traced.outcome_bind_eq_ok.1 h
        cases h
        -- Neither the fetching of a child nor its description gives such a warning.
        have hasked : .tableWithoutOptions name ∉ asked := fun hmem =>
          code_of_findChild hfound _ hmem rfl
        have hnone : .tableWithoutOptions name ∉ described := fun hmem =>
          code_of_childTable (outcome_use_eq_ok.1 hdescribed) _ hmem rfl
        rw [List.mem_append, List.mem_append, ih hlater]
        simp [hasked, hnone]

/-! ## Contracts -/

/-- The table field of the name is served: a table stands under it, or a warning says that the field
names no child entity. -/
def Contract.Serves (c : Contract) (name : Value) : Prop :=
  (∃ p ∈ c.childTables, IsAlike p.1 name) ∨
    ∃ field, .tableWithoutOptions field ∈ c.warnings ∧ IsAlike field name

/-- The table fields that name a child entity, with its name. -/
theorem mem_tableFields {rows : List Entries} {t : Value × String} :
    t ∈ tableFields rows ↔ ∃ row ∈ rows, isAmong tableTypes (row.get "fieldtype") = true ∧
      (row.get "options").label? = some t.2 ∧ row.get "fieldname" = t.1 := by
  obtain ⟨name, child⟩ := t
  rw [tableFields, List.mem_filterMap]
  refine exists_congr fun row => and_congr_right fun _ => ?_
  cases isAmong tableTypes (row.get "fieldtype") with
  | false => simp
  | true => simp [and_comm]

/-- The rows of a child entity that are described are data. -/
theorem isData_of_mem_childRows {source : Source} {child : String} :
    ∀ row ∈ source.childRows child, isData row = true := by
  unfold Source.childRows
  split
  · split
    · exact fun row hrow => (List.mem_filter.1 hrow).2
    · simp
  · simp

section Built

variable {source : Source} {entity : String} {own : OwnParts}
  (hown : source.ownParts entity = .ok own) {tables : Keyed ChildTable} {warnings : List Warning}
  (htables : (childTables source [] [] own.rows).outcome = .ok (tables, warnings))

include hown

/-- The rows of an entity that are described are data. -/
theorem isData_of_mem_ownParts : ∀ row ∈ own.rows, isData row = true := by
  obtain ⟨raw, -, hraw⟩ := bind_eq_ok.1 hown
  obtain ⟨rows, _, _, _, -, hdata, -⟩ := exists_of_ownParts (mapError_eq_ok.1 hraw)
  obtain ⟨rows', -, heq, -⟩ := exists_of_splitRows hdata
  rw [heq]
  exact fun row hrow => (List.mem_filter.1 hrow).2

include htables

/-- A child table stands under the name of a table field, and has a field for each data row of its
entity. -/
theorem exists_of_mem_childTables {p : Value × ChildTable} (hp : p ∈ tables) :
    (∃ t ∈ tableFields own.rows, p.1 = t.1) ∧
      List.Forall₂ IsMade (source.childRows p.2.entity) p.2.fields := by
  obtain ⟨made, hmade, rfl, -⟩ := exists_made_of_childTables hown htables
  obtain ⟨⟨q, hq, hkey⟩, r, hr, htable⟩ := Keyed.exists_of_mem_ofList hp
  obtain ⟨⟨q', warned⟩, hq', rfl⟩ := List.mem_map.1 hq
  obtain ⟨⟨r', warned'⟩, hr', rfl⟩ := List.mem_map.1 hr
  obtain ⟨t, ht, htq⟩ := exists_of_mem_mapM hmade hq'
  obtain ⟨u, -, hur⟩ := exists_of_mem_mapM hmade hr'
  obtain ⟨hname, -⟩ := made_of_tableOf htq
  obtain ⟨-, hentity, hfields, -⟩ := made_of_tableOf hur
  refine ⟨⟨t, ht, hkey.symm.trans hname⟩, ?_⟩
  rw [← htable, hentity]
  exact hfields

omit htables in
/-- A contract warns of table fields where its child tables do. -/
theorem tableWithoutOptions_mem_contract_iff (preset : Preset) (field : Value) :
    .tableWithoutOptions field ∈ (own.contract entity preset tables warnings).warnings ↔
      .tableWithoutOptions field ∈ warnings := by
  obtain ⟨raw, -, hraw⟩ := bind_eq_ok.1 hown
  have hnone : .tableWithoutOptions field ∉ own.rowWarnings ++ own.workflowWarnings :=
    fun hmem => code_of_ownParts (mapError_eq_ok.1 hraw) _ hmem rfl
  rw [List.mem_append, not_or] at hnone
  simp [OwnParts.contract, hnone]

/-- A table stands under a name like that of a table field: under the first such name. -/
theorem exists_table_of_mem_tableFields {t : Value × String} (ht : t ∈ tableFields own.rows) :
    ∃ p ∈ tables, p.1.isKey = true ∧ IsAlike p.1 t.1 := by
  obtain ⟨raw, -, hraw⟩ := bind_eq_ok.1 hown
  obtain ⟨made, hmade, rfl, -⟩ := exists_made_of_childTables hown htables
  obtain ⟨⟨q, warned⟩, hq, htq⟩ := exists_of_mem_forall₂ (mapM_eq_ok.1 hmade).flip ht
  obtain ⟨hname, -⟩ := made_of_tableOf htq
  obtain ⟨p, hp, hpq⟩ := Keyed.exists_isAlike_ofList (List.mem_map_of_mem hq)
  obtain ⟨⟨u, hu, hpu⟩, -⟩ := exists_of_mem_childTables hown htables hp
  obtain ⟨other, hother, -, -, hothername⟩ := mem_tableFields.1 hu
  refine ⟨p, hp, ?_, hname ▸ hpq⟩
  rw [hpu, ← hothername]
  exact (areKeyed_of_ownParts (mapError_eq_ok.1 hraw)).names other hother

/-- **The table fields that are served are those named like a row whose type is exact.** A table
that is named by a padded type is neither made nor warned of, unless another row of the same name
has the exact type. -/
theorem serves_iff (preset : Preset) (name : Value) :
    (own.contract entity preset tables warnings).Serves name ↔
      ∃ row ∈ own.rows, isAmong tableTypes (row.get "fieldtype") = true ∧
        IsAlike (row.get "fieldname") name := by
  obtain ⟨raw, -, hraw⟩ := bind_eq_ok.1 hown
  have hkeyed := areKeyed_of_ownParts (mapError_eq_ok.1 hraw)
  constructor
  · rintro (⟨p, hp, halike⟩ | ⟨field, hfield, halike⟩)
    · obtain ⟨⟨t, ht, hname⟩, -⟩ := exists_of_mem_childTables hown htables hp
      obtain ⟨row, hrow, htype, -, hrowname⟩ := mem_tableFields.1 ht
      exact ⟨row, hrow, htype, hrowname ▸ hname ▸ halike⟩
    · rw [tableWithoutOptions_mem_contract_iff hown, tableWithoutOptions_mem_iff htables] at hfield
      obtain ⟨row, hrow, htype, -, rfl⟩ := hfield
      exact ⟨row, hrow, htype, halike⟩
  · rintro ⟨row, hrow, htype, halike⟩
    -- A table field without a child entity is warned of, and another one has a table.
    cases hchild : (row.get "options").label? with
    | none =>
      refine .inr ⟨row.get "fieldname", ?_, halike⟩
      rw [tableWithoutOptions_mem_contract_iff hown, tableWithoutOptions_mem_iff htables]
      exact ⟨row, hrow, htype, hchild, rfl⟩
    | some child =>
      have hfield : (row.get "fieldname", child) ∈ tableFields own.rows :=
        mem_tableFields.2 ⟨row, hrow, htype, hchild, rfl⟩
      obtain ⟨p, hp, hkey, hpname⟩ := exists_table_of_mem_tableFields hown htables hfield
      exact .inl ⟨p, hp, hpname.trans hkey (hkeyed.names row hrow) halike⟩

end Built

/-- **What the types of a contract are, and which tables it serves.** No field of the form has the
type of a break if and only if no data row has such a type with blanks around it, and so it is with
the fields of each child table and the data rows of its entity. Every field of the form with the
type of a table is served if and only if each data row whose type is a table's with blanks around it
shares its name with one whose type is exact. -/
theorem types_of_build {source : Source} {entity : String} {wanted : Option String} {c : Contract}
    (h : Contract.build source entity wanted = .ok c) :
    ∃ own, source.ownParts (strip entity) = .ok own ∧
      ((∀ f ∈ c.fields, f.type ∉ layoutTypes) ↔ ∀ row ∈ own.rows, ¬IsPadded layoutTypes row) ∧
      (∀ p ∈ c.childTables, (∀ f ∈ p.2.fields, f.type ∉ layoutTypes) ↔
        ∀ row ∈ source.childRows p.2.entity, ¬IsPadded layoutTypes row) ∧
      ((∀ f ∈ c.fields, f.type ∈ tableTypes → c.Serves f.name) ↔
        ∀ row ∈ own.rows, IsPadded tableTypes row → ∃ other ∈ own.rows,
          isAmong tableTypes (other.get "fieldtype") = true ∧
            IsAlike (other.get "fieldname") (row.get "fieldname")) := by
  obtain ⟨-, preset, own, tables, warnings, -, hown, -, htables, rfl⟩ := build_eq_ok.1 h
  obtain ⟨raw, -, hraw⟩ := bind_eq_ok.1 hown
  obtain ⟨hmade, -⟩ := made_of_ownParts (mapError_eq_ok.1 hraw)
  have htypes : ∀ t ∈ tableTypes, t ∈ namedTypes := fun t ht => List.mem_append_right _ ht
  refine ⟨own, hown, forall_not_layout_iff hmade (isData_of_mem_ownParts hown), ?_, ?_⟩
  · intro p hp
    obtain ⟨-, hfields⟩ := exists_of_mem_childTables hown htables hp
    exact forall_not_layout_iff hfields isData_of_mem_childRows
  -- Only a row whose type is exact gives a table, and any row of its name serves the field.
  constructor
  · intro hserved row hrow hpadded
    obtain ⟨f, hf, hrowf : IsMade row f⟩ := exists_of_mem_forall₂ hmade.flip hrow
    have hserves := hserved f hf ((hrowf.type_mem_iff htypes).2 (.inr hpadded))
    rw [serves_iff hown htables, hrowf.name_eq] at hserves
    exact hserves
  · intro hall f hf htype
    obtain ⟨row, hrow, hrowf⟩ := exists_of_mem_forall₂ hmade hf
    rw [serves_iff hown htables, hrowf.name_eq]
    rcases (hrowf.type_mem_iff htypes).1 htype with hexact | hpadded
    · exact ⟨row, hrow, hexact, .refl _⟩
    · exact hall row hrow hpadded

/-- A note with a break and a table whose types end in a blank. -/
def paddedNote : Source :=
  .ofSchemas (.record [("Note", .record [("fields", .list [
    .record [("fieldname", .text "title"), ("fieldtype", .text "Data")],
    .record [("fieldname", .text "details"), ("fieldtype", .text "Section Break ")],
    .record [("fieldname", .text "items"), ("fieldtype", .text "Table "),
      ("options", .text "Item")]])])])

/-- In its contract a field is a break, and a table is not served. -/
theorem types_of_build_padded :
    ∃ c, Contract.build paddedNote "Note" (some "plain") = .ok c ∧
      (∃ f ∈ c.fields, f.type ∈ layoutTypes) ∧
      ∃ f ∈ c.fields, f.type ∈ tableTypes ∧ ¬c.Serves f.name := by
  obtain ⟨c, h, -⟩ := exists_of_map_toOption
    (show (Contract.build paddedNote "Note" (some "plain")).toOption.map (fun _ => ()) = some () by
      decide +kernel)
  obtain ⟨own, hown, hlayout, -, hserved⟩ := types_of_build h
  obtain ⟨own', hown', hrows⟩ := exists_of_map_toOption
    (show (paddedNote.ownParts (strip "Note")).toOption.map (fun own =>
      (own.rows.any (fun row => isAmong ["Section Break "] (row.get "fieldtype")),
        own.rows.any (fun row => isAmong ["Table "] (row.get "fieldtype")),
        own.rows.all fun row => !isAmong tableTypes (row.get "fieldtype"))) =
      some (true, true, true) by decide +kernel)
  obtain rfl : own = own' := Except.ok.inj (hown.symm.trans hown')
  obtain ⟨hbreak, hrows⟩ := Prod.mk.inj hrows
  obtain ⟨htable, hinexact⟩ := Prod.mk.inj hrows
  refine ⟨c, h, ?_, ?_⟩
  · obtain ⟨row, hrow, htype⟩ := List.any_eq_true.1 hbreak
    obtain ⟨s, hs, hmem⟩ := isAmong_eq_true.1 htype
    obtain rfl := List.mem_singleton.1 hmem
    by_contra hnone
    push Not at hnone
    exact hlayout.1 hnone row hrow ⟨_, hs, by decide, by decide⟩
  · obtain ⟨row, hrow, htype⟩ := List.any_eq_true.1 htable
    obtain ⟨s, hs, hmem⟩ := isAmong_eq_true.1 htype
    obtain rfl := List.mem_singleton.1 hmem
    by_contra hnone
    push Not at hnone
    obtain ⟨other, hother, hexact, -⟩ :=
      hserved.1 hnone row hrow ⟨_, hs, by decide, by decide⟩
    have hno := List.all_eq_true.1 hinexact other hother
    rw [hexact] at hno
    exact absurd hno (by decide)

end FormScaffold
