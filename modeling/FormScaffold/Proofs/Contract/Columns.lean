import FormScaffold.Proofs.Contract.Fetching
import FormScaffold.Proofs.Contract.Overriding
import Mathlib.Data.List.Sigma

/-! # Columns of the list view

A data row is shown in the list when it is flagged so, after the overrides. The columns stand in the
order of the indices that their rows ask for. A row that asks for none has its place among the data
rows for an index, whatever the other rows ask for, and of two rows with one index the row that is
declared first comes first.

* `displayIndex`, `shownRows` — the index of a row, and the rows that are shown;
* `placeRows_eq` — these are the rows that are sorted;
* **`exists_shown_of_listColumns`** — the columns of data rows, in their order;
* **`columns_of_build`** — the columns of a contract, which are those of the final rows. -/

namespace FormScaffold

open Text

/-! ## Rows that are shown -/

/-- The index of a row: the whole number that it asks for, or its place when it asks for none. -/
def displayIndex (row : Entries) (place : Nat) : Int := (row.get "idx").toInt.toOption.getD place

/-- The data rows that are shown in the list, with their places among all data rows. -/
def shownRows (data : List Entries) (first : Nat) : List (Entries × Nat) :=
  (data.zipIdx first).filter fun p => (p.1.get "in_list_view").flag

/-- **One row is shown before the other**: it has the lower index, or of two rows with one index the
lower place. -/
def IsShownBefore (p q : Entries × Nat) : Prop :=
  displayIndex p.1 p.2 < displayIndex q.1 q.2 ∨
    displayIndex p.1 p.2 = displayIndex q.1 q.2 ∧ p.2 < q.2

instance : DecidableRel IsShownBefore := fun _ _ => inferInstanceAs (Decidable (_ ∨ _ ∧ _))

/-- Of two rows only one is shown before the other. -/
theorem IsShownBefore.asymm {p q : Entries × Nat} (h : IsShownBefore p q) : ¬IsShownBefore q p := by
  unfold IsShownBefore at h ⊢
  omega

/-- **The column is that of the row.** -/
structure IsColumnOf (p : Entries × Nat) (col : Column) : Prop where
  name : col.name = p.1.get "fieldname"
  type : col.type = typeOf p.1
  label : labelOf p.1 = .ok col.label

/-- A row with its place, as it is sorted. -/
def toPlaced (p : Entries × Nat) : Placed := ⟨displayIndex p.1 p.2, p.2, p.1⟩

/-- What a value is read as is the whole number that it has or writes, or the other number. -/
theorem eq_of_toIntOr {v : Value} {other n : Int} (h : v.toIntOr other = .ok n) :
    n = v.toInt.toOption.getD other := by
  unfold Value.toIntOr at h
  split at h
  · rename_i m hm
    rw [hm, ← Except.ok.inj h]
    rfl
  · exact absurd h (by simp)
  · rename_i f _ hf
    rw [hf, ← Except.ok.inj h]
    rfl

/-- **The rows that are sorted are those that are shown**, each with its index. The place of a row
among the data rows stands for an index that cannot be read as a whole number. -/
theorem placeRows_eq {first : Nat} {data : List Entries} {placed : List Placed}
    (h : placeRows first data = .ok placed) : placed = (shownRows data first).map toPlaced := by
  induction data generalizing first placed with
  | nil => exact (Except.ok.inj h).symm
  | cons row data ih =>
    rw [placeRows] at h
    rw [shownRows, List.zipIdx_cons, List.filter_cons]
    split at h
    · rename_i hshown
      obtain ⟨index, hindex, h⟩ := bind_eq_ok.1 h
      obtain ⟨rest, hrest, h⟩ := bind_eq_ok.1 h
      obtain rfl : index = displayIndex row first := eq_of_toIntOr hindex
      rw [if_pos hshown, ← Except.ok.inj h, ih hrest]
      rfl
    · rename_i hhidden
      rw [if_neg hhidden, ih h]
      rfl

/-! ## Their order -/

/-- Rows are sorted by index, and those of one index by place. -/
theorem Placed.le_iff {a b : Placed} :
    a.le b = true ↔ a.index < b.index ∨ a.index = b.index ∧ a.place ≤ b.place := by
  simp [Placed.le]

/-- Sorted rows stand in the order of their indices and places. -/
theorem pairwise_sorted (placed : List Placed) :
    (placed.mergeSort Placed.le).Pairwise fun a b => a.le b = true := by
  refine List.pairwise_mergeSort (fun a b c hab hbc => ?_) (fun a b => ?_) placed
  · rw [Placed.le_iff] at hab hbc ⊢
    omega
  · rw [Bool.or_eq_true, Placed.le_iff, Placed.le_iff]
    omega

/-- No two rows have one place. -/
theorem nodup_place_shownRows (data : List Entries) : ((shownRows data 0).map (·.2)).Nodup :=
  (List.nodup_zipIdx_map_snd data).sublist (List.filter_sublist.map _)

/-- Rows are sorted into another order of the same rows. -/
theorem exists_sorted (ps : List (Entries × Nat)) : ∃ shown : List (Entries × Nat),
    shown.Perm ps ∧ (ps.map toPlaced).mergeSort Placed.le = shown.map toPlaced := by
  have hperm := List.mergeSort_perm (ps.map toPlaced) Placed.le
  have hself : ∀ a ∈ (ps.map toPlaced).mergeSort Placed.le, toPlaced (a.raw, a.place) = a := by
    intro a ha
    obtain ⟨p, -, rfl⟩ := List.mem_map.1 (hperm.subset ha)
    rfl
  refine ⟨((ps.map toPlaced).mergeSort Placed.le).map fun a => (a.raw, a.place), ?_, ?_⟩
  · have hback := hperm.map fun a => (a.raw, a.place)
    rwa [List.map_map, show (fun a : Placed => (a.raw, a.place)) ∘ toPlaced = id from rfl,
      List.map_id] at hback
  · rw [List.map_map]
    exact ((List.map_congr_left hself).trans (List.map_id _)).symm

/-- **The columns of data rows** are those of the rows that are shown, each once, in the order of
their indices and then of their places. -/
theorem exists_shown_of_listColumns {data : List Entries} {columns : List Column}
    (h : listColumns data = .ok columns) :
    ∃ shown, shown.Perm (shownRows data 0) ∧ shown.Pairwise IsShownBefore ∧
      List.Forall₂ IsColumnOf shown columns := by
  obtain ⟨placed, hplaced, h⟩ := bind_eq_ok.1 h
  obtain rfl := placeRows_eq hplaced
  obtain ⟨shown, hperm, hsorted⟩ := exists_sorted (shownRows data 0)
  have hle := pairwise_sorted ((shownRows data 0).map toPlaced)
  rw [hsorted] at hle h
  refine ⟨shown, hperm, ?_, ?_⟩
  · -- Rows with one index have different places.
    have hplaces : shown.Pairwise fun p q => p.2 ≠ q.2 :=
      List.pairwise_map.1 ((hperm.map _).nodup_iff.2 (nodup_place_shownRows data))
    refine ((List.pairwise_map.1 hle).and hplaces).imp fun {p q} hpq => ?_
    obtain ⟨hle, hne⟩ := hpq
    rcases Placed.le_iff.1 hle with hlt | ⟨heq, hplace⟩
    · exact .inl hlt
    · exact .inr ⟨heq, lt_of_le_of_ne hplace hne⟩
  · refine (List.forall₂_map_left_iff.1 (mapM_eq_ok.1 h)).imp fun p column hcolumn => ?_
    obtain ⟨label, hlabel, hcolumn⟩ := bind_eq_ok.1 hcolumn
    rw [← Except.ok.inj hcolumn]
    exact ⟨rfl, rfl, hlabel⟩

/-! ## Columns of a contract -/

/-- **The row after its overrides**: it has its name, and every other attribute as the last of the
patches that name the row and have the attribute gives it. -/
structure IsFinal (patches : List Entries) (row final : Entries) : Prop where
  name : final.get? "fieldname" = row.get? "fieldname"
  value : ∀ key ≠ "fieldname",
    final.get? key = (lastGiven? key (patchesOf patches row)).or (row.get? key)

/-- The rows of an entity whose fields have names of their own are its fields after their
overrides. -/
theorem forall₂_isFinal {source : Source} {entity : String} {rows fields patches : List Entries}
    (hrows : source.HasRows entity rows)
    (hfields : source.fetch .fieldList entity = .ok (.list (fields.map .record)))
    (hpatches : source.fetch .overrides entity = .ok (.list (patches.map .record)))
    (h : AreOverridable fields patches) : List.Forall₂ (IsFinal patches) fields rows := by
  obtain rfl := hrows.unique ⟨_, _, _, hfields, hpatches, applyOverrides_eq h⟩
  rw [List.forall₂_map_right_iff, List.forall₂_same]
  intro row _
  refine ⟨get?_patched_name _ row, fun key hkey => get?_patched ?_ row hkey⟩
  exact fun patch hpatch => h.nodup patch (List.mem_of_mem_filter hpatch)

/-- **The columns of a contract.** They are those of the data rows whose final flag for the list
reads as yes, each once; a row is final after the overrides, and whichever source gives it. A column
stands before another one when its row has the lower index, or the same index and the lower place
among the data rows; the index is the whole number that the row finally asks for, and its place when
it asks for none. -/
theorem columns_of_build {source : Source} {entity : String} {wanted : Option String}
    {c : Contract} (h : Contract.build source entity wanted = .ok c) :
    ∃ rows shown, source.HasRows (strip entity) rows ∧
      shown.Perm (shownRows (rows.filter isData) 0) ∧ shown.Pairwise IsShownBefore ∧
      List.Forall₂ IsColumnOf shown c.columns ∧
      ∀ fields patches,
        source.fetch .fieldList (strip entity) = .ok (.list (fields.map .record)) →
        source.fetch .overrides (strip entity) = .ok (.list (patches.map .record)) →
        AreOverridable fields patches → List.Forall₂ (IsFinal patches) fields rows := by
  obtain ⟨-, p, own, tables, warnings, -, hown, -, -, rfl⟩ := build_eq_ok.1 h
  obtain ⟨raw, hraw, hparts⟩ := bind_eq_ok.1 hown
  replace hparts := mapError_eq_ok.1 hparts
  obtain ⟨rows, hrows, hdata⟩ := exists_hasRows hraw hparts
  obtain ⟨-, -, -, -, -, -, hcolumns, -⟩ := exists_of_ownParts hparts
  rw [hdata] at hcolumns
  obtain ⟨shown, hperm, hsorted, hshown⟩ := exists_shown_of_listColumns hcolumns
  exact ⟨rows, shown, hrows, hperm, hsorted, hshown, fun fields patches => forall₂_isFinal hrows⟩

/-- A title at the third place. -/
def taskTitle : Entries :=
  [("fieldname", .text "title"), ("in_list_view", .int 1), ("idx", .text "3")]

/-- A status that asks for no place. -/
def taskStatus : Entries := [("fieldname", .text "status"), ("in_list_view", .text "yes")]

/-- A note that is not shown. -/
def taskNote : Entries := [("fieldname", .text "note"), ("in_list_view", .text "no")]

/-- Tasks with these fields and a due date, which an override shows at the first place. A break
stands among them. -/
def listedTasks : Source :=
  .ofSchemas (.record [("Task", .record [
    ("fields", .list [.record taskTitle,
      .record [("fieldtype", .text "Section Break"), ("in_list_view", .int 1)],
      .record taskStatus,
      .record [("fieldname", .text "due"), ("in_list_view", .int 0), ("idx", .int 9)],
      .record taskNote]),
    ("overrides", .list [.record [("fieldname", .text "due"), ("in_list_view", .bool true),
      ("idx", .int 1)]])])])

/-- The due date after the override. -/
def taskDue : Entries :=
  [("fieldname", .text "due"), ("in_list_view", .bool true), ("idx", .int 1)]

/-- The data rows of a task after the override. -/
def taskData : List Entries := [taskTitle, taskStatus, taskDue, taskNote]

/-- The contract of the tasks is built. -/
theorem exists_build_tasks : ∃ c, Contract.build listedTasks "Task" (some "plain") = .ok c := by
  have hnamed : ∀ row ∈ taskData, ∃ s, row.get "fieldname" = .text s := by
    simp [taskData, taskTitle, taskStatus, taskDue, taskNote, Entries.get, Entries.get?]
  have hfinite : ∀ row ∈ taskData, ¬(row.get "idx").IsEndless := by
    simp [taskData, taskTitle, taskStatus, taskDue, taskNote, Entries.get, Entries.get?,
      Value.IsEndless]
  obtain ⟨columns, hcolumns⟩ : ∃ columns, listColumns taskData = .ok columns := by
    cases hcolumns : listColumns taskData with
    | ok columns => exact ⟨columns, rfl⟩
    | error f =>
      obtain ⟨-, row, hrow, -, hendless⟩ := (overflowsWhen_listColumns hnamed f).1 hcolumns
      exact absurd hendless (hfinite row hrow)
  have hpermissions : mergePermissions [] = .ok [] := by
    rw [mergePermissions]
    simp [Keyed.keys, sortKeys, keysOrdered, bind, Except.bind, pure, Except.pure]
  obtain ⟨own, hown, hrows⟩ : ∃ own, listedTasks.ownParts "Task" = .ok own ∧
      own.rows = taskData := by
    -- The answers, the rows and all other parts are worked out.
    exact ⟨_, bind_eq_ok.2 ⟨_, rfl, mapError_eq_ok.2 (bind_eq_ok.2 ⟨_, rfl, bind_eq_ok.2 ⟨_, rfl,
      bind_eq_ok.2 ⟨columns, hcolumns, bind_eq_ok.2 ⟨_, rfl, bind_eq_ok.2 ⟨_, rfl,
      bind_eq_ok.2 ⟨[], hpermissions, bind_eq_ok.2 ⟨_, rfl, bind_eq_ok.2 ⟨_, rfl, rfl⟩⟩⟩⟩⟩⟩⟩⟩)⟩,
      rfl⟩
  refine ⟨_, build_eq_ok.2 ⟨by decide, .plain, own, [], [], by decide, hown, ?_, ?_, rfl⟩⟩
  · rw [hrows]
    exact List.cons_ne_nil _ _
  · rw [hrows]
    rfl

/-- The status has the first place among the data rows, counted from the title on, where the due
date is to be shown as well. -/
theorem columns_of_build_tasks :
    ∃ c, Contract.build listedTasks "Task" (some "plain") = .ok c ∧
      c.columns.map (·.name) = [.text "status", .text "due", .text "title"] := by
  obtain ⟨c, hc⟩ := exists_build_tasks
  obtain ⟨rows, shown, hrows, hperm, hsorted, hcolumns, -⟩ := columns_of_build hc
  obtain ⟨rows', hrows', hdata⟩ : ∃ rows', listedTasks.HasRows (strip "Task") rows' ∧
      rows'.filter isData = taskData := ⟨_, ⟨_, _, _, rfl, rfl, rfl⟩, rfl⟩
  obtain rfl := hrows.unique hrows'
  -- The rows that are shown stand in this order, and sorted rows have one order only.
  have hshown : [(taskStatus, 1), (taskDue, 2), (taskTitle, 0)].Perm (shownRows taskData 0) :=
    List.perm_append_singleton (taskTitle, 0) [(taskStatus, 1), (taskDue, 2)]
  have horder : [(taskStatus, 1), (taskDue, 2), (taskTitle, 0)].Pairwise IsShownBefore := by
    decide +kernel
  rw [hdata] at hperm
  have heq := (hperm.trans hshown.symm).eq_of_pairwise
    (fun _ _ _ _ hpq hqp => absurd hqp hpq.asymm) hsorted horder
  rw [heq] at hcolumns
  exact ⟨c, hc, map_eq_map_of_forall₂ (f := fun p => p.1.get "fieldname")
    (hcolumns.imp fun _ _ hcol => hcol.name)⟩

end FormScaffold
