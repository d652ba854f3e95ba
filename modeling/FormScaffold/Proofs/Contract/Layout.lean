import FormScaffold.Proofs.Contract.Rows
import Mathlib.Data.List.DropRight

/-! # The layout of the form

The rows of a form are read once, and the section that is being filled remembers what the breaks
before have said. Here the sections are told from the rows alone: what stands before a row decides
in which column, in which section and on which tab its field is, and what stands around a place
decides whether a section begins there.

* `lastTab?`, `lastSection?`, `columnAt` — what the rows before a place decide;
* **`IsHeadedBy`**, `Reflects` — a section has its heading from the rows before, and the open
  section its column too;
* `reflects_of_steps` — so it stays with every row;
* `begins`, `stretch` — the places at which a section begins, and the rows that fill it;
* **`layout_of_formSections`** — every data row is in the form once and in order, under its
  heading, and the sections are those that begin somewhere. -/

namespace FormScaffold

/-! ## Breaks -/

/-- Whether the row begins a tab. -/
def isTab (row : Entries) : Bool := isAmong [tabBreak] (row.get "fieldtype")

/-- Whether the row begins a section. -/
def isSection (row : Entries) : Bool := isAmong [sectionBreak] (row.get "fieldtype")

/-- Whether the row begins a column. -/
def isColumn (row : Entries) : Bool := isAmong [columnBreak] (row.get "fieldtype")

/-- Whether the row ends the section before it, as one does that begins a section or a tab. -/
def parts (row : Entries) : Bool := isTab row || isSection row

/-- **What a row is**, told from its type and its name. -/
structure HasKind (row : Entries) (kind : RowKind) : Prop where
  tab : isTab row = (kind == .tab)
  section_ : isSection row = (kind == .section)
  column : isColumn row = (kind == .column)
  data : isData row = (kind == .field)

/-- Tabs and sections end the section before them. -/
theorem HasKind.parts {row : Entries} {kind : RowKind} (h : HasKind row kind) :
    parts row = (kind == .tab || kind == .section) := by
  rw [FormScaffold.parts, h.tab, h.section_]

/-- A row that is no break of the three kinds. -/
theorem HasKind.of_others {row : Entries} {kind : RowKind} (htab : isTab row = false)
    (hsection : isSection row = false) (hcolumn : isColumn row = false)
    (hdata : isData row = (kind == .field))
    (hkind : kind = .layout ∨ kind = .field ∨ kind = .unnamed) : HasKind row kind := by
  rcases hkind with rfl | rfl | rfl <;> exact ⟨htab, hsection, hcolumn, hdata⟩

/-- A type is that of one kind of breaks only. -/
theorem isAmong_other {b b' : String} (hne : b ≠ b') {v : Value} (h : isAmong [b] v = true) :
    isAmong [b'] v = false := by
  obtain ⟨s, rfl, hmem⟩ := isAmong_eq_true.1 h
  obtain rfl := List.mem_singleton.1 hmem
  simp [isAmong, hne]

/-- Every row has its kind. -/
theorem hasKind_kindOf (row : Entries) : HasKind row (kindOf row) := by
  have hdata : isData row = (kindOf row == .field) :=
    Bool.eq_iff_iff.2 (by rw [beq_iff_eq, kindOf_eq_field])
  -- The types are told apart in the order in which they are tried.
  by_cases htab : isTab row = true
  · have hkind : kindOf row = .tab := if_pos htab
    rw [hkind] at hdata ⊢
    exact ⟨htab, isAmong_other (by decide) htab, isAmong_other (by decide) htab, hdata⟩
  by_cases hsection : isSection row = true
  · have hkind : kindOf row = .section := (if_neg htab).trans (if_pos hsection)
    rw [hkind] at hdata ⊢
    exact ⟨Bool.eq_false_iff.2 htab, hsection, isAmong_other (by decide) hsection, hdata⟩
  by_cases hcolumn : isColumn row = true
  · have hkind : kindOf row = .column :=
      (if_neg htab).trans ((if_neg hsection).trans (if_pos hcolumn))
    rw [hkind] at hdata ⊢
    exact ⟨Bool.eq_false_iff.2 htab, Bool.eq_false_iff.2 hsection, hcolumn, hdata⟩
  · have hkind : kindOf row = if isAmong layoutTypes (row.get "fieldtype") then .layout
        else if isNamed row then .field else .unnamed :=
      (if_neg htab).trans ((if_neg hsection).trans (if_neg hcolumn))
    refine HasKind.of_others (Bool.eq_false_iff.2 htab) (Bool.eq_false_iff.2 hsection)
      (Bool.eq_false_iff.2 hcolumn) hdata ?_
    rw [hkind]
    repeat' split
    all_goals simp

/-- The kind that is read of a row is the one it has. -/
theorem hasKind_of_ofRow {row : Entries} {kind : RowKind} (h : RowKind.ofRow row = .ok kind) :
    HasKind row kind :=
  (ofRow_eq_ok.1 h).2 ▸ hasKind_kindOf row

/-! ## One row more -/

/-- **What a row of a kind does to the open section**: the sections that it completes, and the
section that is open then. -/
inductive Steps (s : OpenSection) (row : Entries) (place : Nat) :
    RowKind → List FormSection → OpenSection → Prop
  | tab {label : String} (h : tabLabel row place = .ok label) :
      Steps s row place .tab s.close (.ofTab label)
  | section_ : Steps s row place .section s.close
      (s.ofBreak (row.get "label").label? (row.get "collapsible").flag)
  | column : Steps s row place .column [] s.nextColumn
  | layout : Steps s row place .layout [] s
  | field {f : Field} (h : Field.describe row s.column "" = .ok f) :
      Steps s row place .field [] (s.addField f)
  | unnamed : Steps s row place .unnamed [] s

/-- **A step of the layout is one of the five**, by the kind of the row. A row begins a tab, a
section or a column, or is data, or is a mere matter of layout. What it completes, and what is open
behind it, is said for each of them, and later lemmas go by these five cases. -/
theorem steps_of_step {s t : OpenSection} {row : Entries} {place : Nat}
    {closed : List FormSection} {warnings : List Warning}
    (h : s.step row place = .ok (closed, t, warnings)) :
    ∃ kind, HasKind row kind ∧ Steps s row place kind closed t := by
  obtain ⟨kind, hkind, h⟩ := bind_eq_ok.1 h
  refine ⟨kind, hasKind_of_ofRow hkind, ?_⟩
  cases kind with
  | tab =>
    obtain ⟨label, hlabel, h⟩ := bind_eq_ok.1 h
    cases h
    exact .tab hlabel
  | field =>
    obtain ⟨f, hf, h⟩ := bind_eq_ok.1 h
    cases h
    exact .field hf
  | column =>
    cases h
    exact .column
  | layout =>
    cases h
    exact .layout
  | unnamed =>
    cases h
    exact .unnamed
  | _ =>
    -- The one kind that is left begins a section.
    cases h
    exact .section_

/-- Rows that make sections do so one by one. -/
theorem exists_of_fill_cons {s : OpenSection} {place : Nat} {row : Entries} {rest : List Entries}
    {sections : List FormSection} {warnings : List Warning}
    (h : s.fill place ((row :: rest).map .record) = .ok (sections, warnings)) :
    ∃ kind closed t later more, HasKind row kind ∧ Steps s row place kind closed t ∧
      t.fill (place + 1) (rest.map .record) = .ok (later, more) ∧ sections = closed ++ later := by
  obtain ⟨raw, hraw, h⟩ := bind_eq_ok.1 h
  obtain rfl : row = raw := Except.ok.inj hraw
  obtain ⟨⟨closed, t, first⟩, hstep, h⟩ := bind_eq_ok.1 h
  obtain ⟨⟨later, more⟩, hfill, h⟩ := bind_eq_ok.1 h
  cases h
  obtain ⟨kind, hkind, hsteps⟩ := steps_of_step hstep
  exact ⟨kind, closed, t, later, more, hkind, hsteps, hfill, rfl⟩

/-- The section that is complete with more fields. -/
def OpenSection.extend (s : OpenSection) (fields : List Field) : OpenSection :=
  { s with fields := s.fields ++ fields }

/-- No more fields change nothing. -/
theorem OpenSection.extend_nil (s : OpenSection) : s.extend [] = s := by
  rw [extend, List.append_nil]

/-- A row that begins a section or a tab completes the section before; the next one has no fields
yet. -/
theorem Steps.of_parts {s t : OpenSection} {row : Entries} {place : Nat} {kind : RowKind}
    {closed : List FormSection} (h : Steps s row place kind closed t) (hkind : HasKind row kind)
    (hrow : parts row = true) : closed = s.close ∧ t.fields = [] := by
  rw [hkind.parts] at hrow
  cases h with
  | tab _ => exact ⟨rfl, rfl⟩
  | section_ => exact ⟨rfl, rfl⟩
  | _ => exact absurd hrow (by decide)

/-- Any other row completes nothing; it moves on to the next column, adds its field, or does
nothing. -/
theorem Steps.of_not_parts {s t : OpenSection} {row : Entries} {place : Nat} {kind : RowKind}
    {closed : List FormSection} (h : Steps s row place kind closed t) (hkind : HasKind row kind)
    (hrow : parts row = false) :
    closed = [] ∧ ∃ fields column, t = { s.extend fields with column := column } ∧
      column = s.column + (if isColumn row then 1 else 0) ∧
      List.Forall₂ (fun r f => Field.describe r s.column "" = .ok f) ([row].filter isData)
        fields := by
  rw [hkind.parts] at hrow
  rw [hkind.column, List.filter_singleton, hkind.data]
  -- Only the kind `field` leaves a row to be described, and only `column` counts one up.
  cases h with
  | tab _ => exact absurd hrow (by decide)
  | section_ => exact absurd hrow (by decide)
  | column =>
    refine ⟨rfl, [], s.column + 1, ?_, rfl, .nil⟩
    rw [OpenSection.extend_nil]
    rfl
  | field hf => exact ⟨rfl, [_], s.column, rfl, rfl, .cons hf .nil⟩
  | layout =>
    refine ⟨rfl, [], s.column, ?_, rfl, .nil⟩
    rw [OpenSection.extend_nil]
  | unnamed =>
    refine ⟨rfl, [], s.column, ?_, rfl, .nil⟩
    rw [OpenSection.extend_nil]

/-! ## What the rows before a place decide -/

/-- The last row that begins a tab, with its place. -/
def lastTab? (before : List Entries) : Option (Entries × Nat) :=
  (before.zipIdx.filter fun p => isTab p.1).getLast?

/-- The last row that begins a section, when no tab begins after it. -/
def lastSection? (before : List Entries) : Option Entries :=
  ((before.rtakeWhile fun row => !isTab row).filter isSection).getLast?

/-- How many columns begin after the last row that begins a section or a tab. -/
def columnAt (before : List Entries) : Nat :=
  (before.rtakeWhile fun row => !parts row).countP isColumn

section Concat

variable (before : List Entries) (row : Entries)

/-- The last tab after one row more. -/
theorem lastTab?_concat : lastTab? (before ++ [row]) =
    if isTab row then some (row, before.length) else lastTab? before := by
  unfold lastTab?
  rw [List.zipIdx_append, List.filter_append]
  cases h : isTab row <;> simp [List.zipIdx_cons, h]

/-- The last section on the last tab after one row more: a tab leaves none. -/
theorem lastSection?_concat : lastSection? (before ++ [row]) =
    if isTab row then none else if isSection row then some row else lastSection? before := by
  unfold lastSection?
  rw [List.rtakeWhile_concat]
  -- What stands behind the last tab is nothing right after a tab.
  cases htab : isTab row with
  | true => rfl
  | false => cases h : isSection row <;> simp [h]

/-- The column after one row more: a section or a tab starts with the first one. -/
theorem columnAt_concat : columnAt (before ++ [row]) =
    if parts row then 0 else columnAt before + if isColumn row then 1 else 0 := by
  unfold columnAt
  rw [List.rtakeWhile_concat]
  cases hparts : parts row with
  | true => rfl
  | false => cases h : isColumn row <;> simp [h]

end Concat

/-- **The heading of a section that is open after rows**: the label of the last tab among them, and
what the last section break on that tab says. -/
structure IsHeadedBy (before : List Entries) (tab label : Option String) (collapsible : Bool) :
    Prop where
  tab : (lastTab? before).mapM (fun p => tabLabel p.1 p.2) = .ok tab
  label : label = (lastSection? before).bind fun row => (row.get "label").label?
  collapsible : collapsible = (lastSection? before).any fun row => (row.get "collapsible").flag

/-- The rows decide the heading. -/
theorem IsHeadedBy.unique {before : List Entries} {tab tab' label label' : Option String}
    {collapsible collapsible' : Bool} (h : IsHeadedBy before tab label collapsible)
    (h' : IsHeadedBy before tab' label' collapsible') :
    (tab, label, collapsible) = (tab', label', collapsible') :=
  Prod.ext (Except.ok.inj (h.tab.symm.trans h'.tab))
    (Prod.ext (h.label.trans h'.label.symm) (h.collapsible.trans h'.collapsible.symm))

/-- **What the open section remembers of the rows before.** -/
structure Reflects (before : List Entries) (s : OpenSection) : Prop where
  heading : IsHeadedBy before s.tab s.label s.collapsible
  implicit : s.implicit = (lastSection? before).isNone
  column : s.column = columnAt before

/-- At the start nothing is remembered. -/
theorem reflects_start : Reflects [] .start := ⟨⟨rfl, rfl, rfl⟩, rfl, rfl⟩

/-- A row that begins neither a section nor a tab leaves the heading. -/
theorem IsHeadedBy.concat {before : List Entries} {tab label : Option String} {collapsible : Bool}
    (h : IsHeadedBy before tab label collapsible) {row : Entries} (hrow : parts row = false) :
    IsHeadedBy (before ++ [row]) tab label collapsible := by
  obtain ⟨htab, hsection⟩ := Bool.or_eq_false_iff.1 hrow
  refine ⟨?_, ?_, ?_⟩
  · rw [lastTab?_concat, htab]
    exact h.tab
  · rw [lastSection?_concat, htab, hsection]
    exact h.label
  · rw [lastSection?_concat, htab, hsection]
    exact h.collapsible

/-- **Every row leaves the open section with what the rows say.** The label, the tab and the column
that the open section remembers are those that the rows before say, as they are read from the end.
-/
theorem reflects_of_steps {before : List Entries} {s t : OpenSection} {row : Entries}
    {kind : RowKind} {closed : List FormSection} (hs : Reflects before s) (hkind : HasKind row kind)
    (h : Steps s row before.length kind closed t) : Reflects (before ++ [row]) t := by
  have hparts := hkind.parts
  -- A row that is no break of a section or tab changes the column at most.
  have hother : parts row = false → Reflects (before ++ [row]) t := by
    intro hrow
    obtain ⟨-, fields, column, rfl, rfl, -⟩ := h.of_not_parts hkind hrow
    obtain ⟨htab, hsection⟩ := Bool.or_eq_false_iff.1 hrow
    refine ⟨hs.heading.concat hrow, ?_, ?_⟩
    · rw [lastSection?_concat, htab, hsection]
      exact hs.implicit
    · rw [columnAt_concat, hrow, ← hs.column]
      rfl
  have hzero : parts row = true → columnAt (before ++ [row]) = 0 := by
    intro hrow
    rw [columnAt_concat, hrow]
    rfl
  cases h with
  | tab hlabel =>
    -- No section break stands behind the tab yet.
    have hnone : lastSection? (before ++ [row]) = none := by
      rw [lastSection?_concat, hkind.tab]
      rfl
    refine ⟨⟨?_, by rw [hnone]; rfl, by rw [hnone]; rfl⟩, by rw [hnone]; rfl, (hzero hparts).symm⟩
    rw [lastTab?_concat, hkind.tab]
    exact bind_eq_ok.2 ⟨_, hlabel, rfl⟩
  | section_ =>
    have hlast : lastSection? (before ++ [row]) = some row := by
      rw [lastSection?_concat, hkind.tab, hkind.section_]
      rfl
    refine ⟨⟨?_, by rw [hlast]; rfl, by rw [hlast]; rfl⟩, by rw [hlast]; rfl, (hzero hparts).symm⟩
    rw [lastTab?_concat, hkind.tab]
    exact hs.heading.tab
  | _ => exact hother hparts

/-! ## Every row in its place -/

/-- The data rows among rows with their places. -/
def dataIn (placed : List (Entries × Nat)) : List (Entries × Nat) :=
  placed.filter fun p => isData p.1

/-- **The field is that of the row, in the column that the rows before it decide.** -/
def IsSetAt (rows : List Entries) (p : Entries × Nat) (f : Field) : Prop :=
  Field.describe p.1 (columnAt (rows.take p.2)) "" = .ok f

/-- A field stands in the column that the rows before it decide. -/
theorem IsSetAt.column {rows : List Entries} {p : Entries × Nat} {f : Field}
    (h : IsSetAt rows p f) : f.column = columnAt (rows.take p.2) := by
  obtain ⟨label, -, h⟩ := bind_eq_ok.1 h
  rw [← Except.ok.inj h]

/-- The fields of a section, each with the section. -/
def FormSection.placed (u : FormSection) : List (FormSection × Field) := u.fields.map (u, ·)

/-- **The field is that of the row, in a section with the heading that the rows before it
decide.** -/
def IsPlacedAt (rows : List Entries) (p : Entries × Nat) (q : FormSection × Field) : Prop :=
  IsHeadedBy (rows.take p.2) q.1.tab q.1.label q.1.collapsible ∧ IsSetAt rows p q.2

/-- The open section as it would be now. -/
def OpenSection.toSection (s : OpenSection) : FormSection :=
  ⟨s.label, s.fields, s.tab, s.collapsible⟩

/-- A section that is left out has no fields. -/
theorem flatMap_placed_close (s : OpenSection) :
    s.close.flatMap (·.placed) = s.fields.map (s.toSection, ·) := by
  unfold OpenSection.close
  split
  · rename_i h
    simp only [Bool.and_eq_true, List.isEmpty_iff] at h
    rw [h.1]
    rfl
  · exact List.flatMap_singleton _ _

/-- The data rows among rows, the first one apart. -/
theorem dataIn_cons (p : Entries × Nat) (placed : List (Entries × Nat)) :
    dataIn (p :: placed) = dataIn [p] ++ dataIn placed := List.filter_append [p] placed

/-- A row that ends a section is no data. -/
theorem not_isData_of_parts {row : Entries} {kind : RowKind} (h : HasKind row kind)
    (hrow : parts row = true) : isData row = false := by
  rw [h.parts] at hrow
  rw [h.data]
  cases kind <;> first | rfl | exact absurd hrow (by decide)

/-- The data rows among one row are that row or none. -/
theorem dataIn_singleton (row : Entries) (place : Nat) :
    dataIn [(row, place)] = ([row].filter isData).map fun r => (r, place) := by
  unfold dataIn
  cases h : isData row <;> simp [h]

/-- The field that a row adds is set by the rows before it. -/
theorem forall₂_isSetAt {before rest : List Entries} {s : OpenSection} {row : Entries}
    {fields : List Field} (hs : Reflects before s)
    (h : List.Forall₂ (fun r f => Field.describe r s.column "" = .ok f) ([row].filter isData)
      fields) :
    List.Forall₂ (fun p f => (before ++ row :: rest).take p.2 = before ∧
      IsSetAt (before ++ row :: rest) p f) (dataIn [(row, before.length)]) fields := by
  rw [dataIn_singleton, List.forall₂_map_left_iff]
  have htake : (before ++ row :: rest).take before.length = before := List.take_left
  refine h.imp fun r f hf => ⟨htake, ?_⟩
  rw [IsSetAt, htake, ← hs.column]
  exact hf

/-- **The fields of the open section and of all that follow it**, each with its section: first those
that are there, and then one for each data row. -/
theorem exists_of_fill_placed {before rest : List Entries} {s : OpenSection}
    {sections : List FormSection} {warnings : List Warning} (hs : Reflects before s)
    (h : s.fill before.length (rest.map .record) = .ok (sections, warnings)) :
    ∃ fields placed, sections.flatMap (·.placed) =
        s.fields.map ((s.extend fields).toSection, ·) ++ placed ∧
      List.Forall₂ (IsPlacedAt (before ++ rest)) (dataIn (rest.zipIdx before.length)) placed := by
  -- The induction is on the rows to come, while those before grow and the section reflects them.
  induction rest generalizing before s sections warnings with
  | nil =>
    cases h
    refine ⟨[], [], ?_, .nil⟩
    rw [flatMap_placed_close, OpenSection.extend_nil, List.append_nil]
  | cons row rest ih =>
    obtain ⟨kind, closed, t, later, more, hkind, hsteps, hfill, rfl⟩ := exists_of_fill_cons h
    have ht := reflects_of_steps hs hkind hsteps
    have hlength : (before ++ [row]).length = before.length + 1 := List.length_append
    obtain ⟨fields, placed, hflat, hplaced⟩ := ih ht (hlength ▸ hfill)
    rw [← List.append_cons, hlength] at hplaced
    rw [List.flatMap_append, hflat, List.zipIdx_cons, dataIn_cons]
    cases hrow : parts row with
    | true =>
      -- The section is complete, and the next one has no fields yet.
      obtain ⟨rfl, hnil⟩ := hsteps.of_parts hkind hrow
      refine ⟨[], placed, ?_, ?_⟩
      · rw [flatMap_placed_close, hnil, OpenSection.extend_nil]
        rfl
      · rw [dataIn_singleton, List.filter_singleton, not_isData_of_parts hkind hrow]
        exact hplaced
    | false =>
      -- The section goes on; its complete form is the same, whether seen from before or after.
      obtain ⟨rfl, new, column, rfl, -, hnew⟩ := hsteps.of_not_parts hkind hrow
      have hsection : (OpenSection.extend { s.extend new with column := column } fields).toSection =
          (s.extend (new ++ fields)).toSection := by
        simp [OpenSection.extend, OpenSection.toSection]
      refine ⟨new ++ fields, new.map ((s.extend (new ++ fields)).toSection, ·) ++ placed, ?_,
        List.rel_append ?_ hplaced⟩
      · rw [hsection]
        simp [OpenSection.extend]
      · rw [List.forall₂_map_right_iff]
        refine (forall₂_isSetAt hs hnew).imp fun p f hf => ⟨?_, hf.2⟩
        rw [hf.1]
        exact hs.heading

/-! ## Where sections begin -/

/-- The rows from a place up to the next one that begins a section or a tab, with their places. -/
def stretch (rows : List Entries) (i : Nat) : List (Entries × Nat) :=
  (rows.zipIdx.drop i).takeWhile fun p => !parts p.1

/-- **Whether a section begins at a place**: right after a section break one always does, and at the
start or after a tab break one does when a data row follows before the next of these breaks. -/
def begins (rows : List Entries) (i : Nat) : Bool :=
  match (rows.take i).getLast? with
  | none => !(dataIn (stretch rows i)).isEmpty
  | some row => isSection row || (isTab row && !(dataIn (stretch rows i)).isEmpty)

/-- **The section is the one that begins at a place**: it has its heading from the rows before and
its fields from those after, up to the next section or tab. -/
def IsSectionAt (rows : List Entries) (i : Nat) (u : FormSection) : Prop :=
  IsHeadedBy (rows.take i) u.tab u.label u.collapsible ∧
    List.Forall₂ (IsSetAt rows) (dataIn (stretch rows i)) u.fields

/-- The rows of a stretch follow its start, whatever stands before. -/
theorem stretch_append (before rest : List Entries) :
    stretch (before ++ rest) before.length =
      (rest.zipIdx before.length).takeWhile fun p => !parts p.1 := by
  have hlength : before.length = before.zipIdx.length := List.length_zipIdx.symm
  rw [stretch, List.zipIdx_append]
  congr 1
  rw [Nat.zero_add]
  exact List.drop_left' hlength.symm

/-- Lists that are related item by item are both empty or neither is. -/
theorem isEmpty_eq_of_forall₂ {α β : Type} {r : α → β → Prop} {xs : List α} {ys : List β}
    (h : List.Forall₂ r xs ys) : xs.isEmpty = ys.isEmpty := by
  cases h <;> rfl

/-- Whether a section begins after rows is what the last of them says. -/
theorem begins_append (before rest : List Entries) : begins (before ++ rest) before.length =
    match before.getLast? with
    | none => !(dataIn (stretch (before ++ rest) before.length)).isEmpty
    | some row => isSection row ||
        (isTab row && !(dataIn (stretch (before ++ rest) before.length)).isEmpty) := by
  rw [begins, List.take_left]

/-- **A section that has no fields yet**, when it is complete with those of the stretch at a place,
is there when a section begins at the place. -/
theorem forall₂_close {rows : List Entries} {i : Nat} {t : OpenSection} {fields : List Field}
    (ht : Reflects (rows.take i) t) (hnil : t.fields = [])
    (hfields : List.Forall₂ (IsSetAt rows) (dataIn (stretch rows i)) fields)
    (hbegins : begins rows i = !((dataIn (stretch rows i)).isEmpty && t.implicit)) :
    List.Forall₂ (IsSectionAt rows) ([i].filter (begins rows)) (t.extend fields).close := by
  have hall : (t.extend fields).fields = fields := by
    rw [OpenSection.extend, hnil, List.nil_append]
  have hclose : (t.extend fields).close =
      if ((t.extend fields).fields.isEmpty && t.implicit) = true then []
      else [(t.extend fields).toSection] := rfl
  rw [hall] at hclose
  -- The section is left out when no row of the stretch holds data, unless a break began it.
  rw [List.filter_singleton, hbegins, isEmpty_eq_of_forall₂ hfields, hclose]
  cases fields.isEmpty && t.implicit with
  | true => exact .nil
  | false =>
    refine .cons ⟨ht.heading, ?_⟩ .nil
    show List.Forall₂ _ _ (t.extend fields).fields
    rw [hall]
    exact hfields

/-- A break of a section or tab begins a section as the open section then says. -/
theorem begins_of_parts {before rest : List Entries} {row : Entries} {kind : RowKind}
    {t : OpenSection} (hkind : HasKind row kind) (hrow : parts row = true)
    (ht : Reflects (before ++ [row]) t) :
    begins (before ++ [row] ++ rest) (before ++ [row]).length =
      !((dataIn (stretch (before ++ [row] ++ rest) (before ++ [row]).length)).isEmpty &&
        t.implicit) := by
  rw [begins_append, ht.implicit, lastSection?_concat, List.getLast?_concat]
  rw [hkind.parts] at hrow
  simp only [hkind.tab, hkind.section_]
  -- The row is either a tab, behind which the section is left out when empty, or a section break.
  generalize (dataIn (stretch (before ++ [row] ++ rest) (before ++ [row]).length)).isEmpty = none
  cases kind <;> first | exact absurd hrow (by decide) | (cases none <;> rfl)

/-- No section begins right after any other row. -/
theorem begins_of_not_parts {before rest : List Entries} {row : Entries}
    (hrow : parts row = false) :
    begins (before ++ [row] ++ rest) (before ++ [row]).length = false := by
  obtain ⟨htab, hsection⟩ := Bool.or_eq_false_iff.1 hrow
  rw [begins_append, List.getLast?_concat]
  simp only [htab, hsection]
  rfl

/-- **The sections that rows make** are the open one, with the fields of the rows up to the next
section or tab, and then one for each place behind a row at which a section begins. -/
theorem exists_of_fill_sections {before rest : List Entries} {s : OpenSection}
    {sections : List FormSection} {warnings : List Warning} (hs : Reflects before s)
    (h : s.fill before.length (rest.map .record) = .ok (sections, warnings)) :
    ∃ fields later, sections = (s.extend fields).close ++ later ∧
      List.Forall₂ (IsSetAt (before ++ rest)) (dataIn (stretch (before ++ rest) before.length))
        fields ∧
      List.Forall₂ (IsSectionAt (before ++ rest))
        ((List.range' (before.length + 1) rest.length).filter (begins (before ++ rest))) later := by
  induction rest generalizing before s sections warnings with
  | nil =>
    cases h
    refine ⟨[], [], ?_, ?_, .nil⟩
    · rw [OpenSection.extend_nil, List.append_nil]
    · rw [stretch_append]
      exact .nil
  | cons row rest ih =>
    obtain ⟨kind, closed, t, later, more, hkind, hsteps, hfill, rfl⟩ := exists_of_fill_cons h
    have ht := reflects_of_steps hs hkind hsteps
    have hlength : (before ++ [row]).length = before.length + 1 := List.length_append
    obtain ⟨fields, later, rfl, hfields, hlater⟩ := ih ht (hlength ▸ hfill)
    have hplaces : List.range' (before.length + 1) (row :: rest).length =
        [(before ++ [row]).length] ++ List.range' ((before ++ [row]).length + 1) rest.length := by
      rw [hlength]
      rfl
    have hstretch : stretch (before ++ [row] ++ rest) before.length =
        if parts row then [] else
          (row, before.length) :: stretch (before ++ [row] ++ rest) (before ++ [row]).length := by
      rw [stretch_append, ← List.append_cons, stretch_append, hlength]
      cases hrow : parts row <;> simp [List.zipIdx_cons, hrow]
    rw [hplaces, List.append_cons, hstretch, List.filter_append]
    cases hrow : parts row with
    | true =>
      -- The section is complete, and the break may begin the next one.
      obtain ⟨rfl, hnil⟩ := hsteps.of_parts hkind hrow
      have hnext := forall₂_close (t := t) (List.take_left.symm ▸ ht) hnil hfields
        (begins_of_parts hkind hrow ht)
      refine ⟨[], (t.extend fields).close ++ later, ?_, .nil, List.rel_append hnext hlater⟩
      rw [OpenSection.extend_nil]
    | false =>
      -- The stretch goes on behind the row, and no section begins there.
      obtain ⟨rfl, new, column, rfl, -, hnew⟩ := hsteps.of_not_parts hkind hrow
      refine ⟨new ++ fields, later, ?_, ?_, ?_⟩
      · simp [OpenSection.extend, OpenSection.close]
      · rw [if_neg Bool.false_ne_true, dataIn_cons]
        rw [← List.append_cons] at hfields ⊢
        exact List.rel_append ((forall₂_isSetAt hs hnew).imp fun _ _ hf => hf.2) hfields
      · rw [List.filter_singleton, begins_of_not_parts hrow]
        exact hlater

/-! ## The form -/

/-- Sections are made from records with types that can be keys. -/
theorem exists_rows_of_fill {s : OpenSection} {place : Nat} {vs : List Value}
    {sections : List FormSection} {warnings : List Warning}
    (h : s.fill place vs = .ok (sections, warnings)) :
    ∃ rows : List Entries, vs = rows.map .record ∧
      ∀ row ∈ rows, (row.get "fieldtype").isKey = true := by
  induction vs generalizing s place sections warnings with
  | nil => exact ⟨[], rfl, by simp⟩
  | cons v vs ih =>
    obtain ⟨row, hrow, h⟩ := bind_eq_ok.1 h
    obtain ⟨⟨closed, t, first⟩, hstep, h⟩ := bind_eq_ok.1 h
    obtain ⟨⟨later, more⟩, hfill, -⟩ := bind_eq_ok.1 h
    obtain ⟨rows, rfl, hkeys⟩ := ih hfill
    obtain ⟨kind, hkind, -⟩ := bind_eq_ok.1 hstep
    have hv : v = .record row := by
      cases v with
      | record es => rw [Except.ok.inj hrow]
      | _ => exact absurd hrow (by simp [Value.entries])
    exact ⟨row :: rows, by rw [hv, List.map_cons],
      List.forall_mem_cons.2 ⟨(ofRow_eq_ok.1 hkind).1, hkeys⟩⟩

/-- **The layout of the form.** Of the rows that make up a form the data rows, which are those that
hold data and have usable names, are in the sections once each and in order, every one in the column
and under the heading that the rows before it decide. The sections are those that begin somewhere
among the rows: right after every section break one, and at the start and right after every tab
break one when a data row follows before the next of these breaks. -/
theorem layout_of_formSections {vs : List Value} {sections : List FormSection}
    {warnings : List Warning} (h : formSections vs = .ok (sections, warnings)) :
    ∃ rows : List Entries, vs = rows.map .record ∧
      (∃ unnamed, splitRows 0 vs = .ok (rows.filter isData, unnamed)) ∧
      List.Forall₂ (IsPlacedAt rows) (dataIn rows.zipIdx) (sections.flatMap (·.placed)) ∧
      List.Forall₂ (IsSectionAt rows) ((List.range (rows.length + 1)).filter (begins rows))
        sections := by
  obtain ⟨rows, rfl, hkeys⟩ := exists_rows_of_fill h
  refine ⟨rows, rfl, exists_splitRows_of_isKey 0 hkeys, ?_, ?_⟩
  · obtain ⟨fields, placed, hflat, hplaced⟩ := exists_of_fill_placed reflects_start h
    rw [hflat]
    exact hplaced
  · obtain ⟨fields, later, rfl, hfields, hlater⟩ := exists_of_fill_sections reflects_start h
    have hbegins : begins rows 0 =
        !((dataIn (stretch rows 0)).isEmpty && OpenSection.start.implicit) := by
      simp [begins, OpenSection.start]
    have hplaces : List.range (rows.length + 1) = [0] ++ List.range' (0 + 1) rows.length := by
      rw [List.range_eq_range', List.range'_succ]
      rfl
    rw [hplaces, List.filter_append]
    exact List.rel_append (forall₂_close (i := 0) reflects_start rfl hfields hbegins) hlater

/-- Two columns before the first break, and a tab that begins with a section. Of the two sections on
the tab the first one is empty; a data row without a name and a fold stand among the others. -/
def noteRows : List Entries :=
  [[("fieldname", .text "title"), ("fieldtype", .text "Data")],
    [("fieldtype", .text "Column Break")],
    [("fieldname", .text "state"), ("fieldtype", .text "Select")],
    [("fieldtype", .text "Tab Break"), ("label", .text "More")],
    [("fieldtype", .text "Fold")],
    [("fieldtype", .text "Section Break"), ("label", .text "Notes"), ("collapsible", .int 1)],
    [("fieldtype", .text "Section Break")],
    [("fieldtype", .text "Data")],
    [("fieldname", .text "note"), ("fieldtype", .text "Text")]]

/-- The tab has no section of its own, and the empty one stays. -/
theorem layout_of_formSections_notes :
    ∃ sections, formSections (noteRows.map .record) = .ok (sections, []) ∧
      sections.map (fun u => (u.tab, u.label, u.collapsible)) =
        [(none, none, false), (some "More", some "Notes", true), (some "More", none, false)] ∧
      (sections.flatMap (·.placed)).map (·.2.column) = [0, 1, 0] := by
  have h : ∃ sections, formSections (noteRows.map .record) = .ok (sections, []) := ⟨_, rfl⟩
  obtain ⟨sections, h⟩ := h
  obtain ⟨rows, hrows, -, hplaced, hsections⟩ := layout_of_formSections h
  obtain rfl : noteRows = rows := List.map_injective_iff.2 (fun _ _ => Value.record.inj) hrows
  refine ⟨sections, h, ?_, ?_⟩
  · have hbegins : (List.range (noteRows.length + 1)).filter (begins noteRows) = [0, 6, 7] := by
      decide
    rw [hbegins] at hsections
    obtain _ | ⟨⟨hfirst, -⟩, _ | ⟨⟨hsecond, -⟩, _ | ⟨⟨hthird, -⟩, _ | _⟩⟩⟩ := hsections
    -- What the rows before decide is worked out for each of the three places.
    have hstart : IsHeadedBy (noteRows.take 0) none none false := ⟨rfl, rfl, rfl⟩
    have hnotes : IsHeadedBy (noteRows.take 6) (some "More") (some "Notes") true :=
      ⟨rfl, rfl, rfl⟩
    have hlast : IsHeadedBy (noteRows.take 7) (some "More") none false := ⟨rfl, rfl, rfl⟩
    rw [List.map_cons, List.map_cons, List.map_cons, hfirst.unique hstart, hsecond.unique hnotes,
      hthird.unique hlast]
    rfl
  · have hcolumns := map_eq_map_of_forall₂ (hplaced.imp fun _ _ hq => hq.2.column)
    rw [hcolumns]
    decide

end FormScaffold
