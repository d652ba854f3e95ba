import FormScaffold.Metadata.Customization
import FormScaffold.Proofs.Contract.Overriding

/-! # Property setters

A setter gives one attribute of one field. The setters of a field are folded into one patch, which
starts with the name of the field, and the patches are applied in the order in which the fields are
first named. Since a patch puts its attributes one by one, and those of different fields do not
meet, this is the same as all setters applied one at a time. A setter of the name itself is the one
exception: it changes the name in the patch, by which the patch finds its field, so that all setters
of the field go to the field that has this name.

* `Setter`, `settersOf` — the setters that rows hold;
* `setTogether`, `setInTurn` — fields with the setters folded, and with one after the other;
* `setInTurn_eq` — one after the other, every field gets the setters that name it;
* `foldl_addOne` — the patches that setters fold into;
* `patchRow_foldPatch` — a folded patch does what its setters do;
* **`setTogether_eq_setInTurn`** — both ways agree when the name in each patch is that of its
  field. -/

namespace FormScaffold

open Json

/-! ## Setters of rows -/

/-- **A setter**: a field, one of its attributes, and the value of the attribute. -/
structure Setter where
  field : String
  property : String
  value : Value

/-- The patch that a setter is by itself. The name of a field is never patched. -/
def Setter.patch (s : Setter) : Entries :=
  ("fieldname", .text s.field) :: if s.property = "fieldname" then [] else [(s.property, s.value)]

/-- The setter that a row holds; a row without a field or an attribute holds none. -/
def setterOf (row : Entries) : Except Fault (Option Setter) :=
  match row.get "field_name", row.get "property" with
  | .text field, .text property =>
    if field = "" ∨ property = "" then .ok none
    else do
      return some ⟨field, property, ← coerceProperty (row.get "value") (row.get "property_type")⟩
  | _, _ => .ok none

/-- The setters that rows hold. -/
def settersOf (rows : List Entries) : Except Fault (List Setter) := do
  return (← rows.mapM setterOf).reduceOption

/-- The fields after one row, which may hold a setter. -/
def setOne (fields : List Entries) (row : Entries) : Except Fault (List Entries) := do
  match ← setterOf row with
  | none => return fields
  | some s => return (← applyOverrides (.list (fields.map .record)) (.list [.record s.patch])).1

/-- **The fields after the setters of rows, one after the other.** -/
def setInTurn (fields rows : List Entries) : Except Fault (List Entries) :=
  rows.foldlM setOne fields

/-- **The fields after the patches that the rows fold into.** -/
def setTogether (fields rows : List Entries) : Except Fault (List Entries) := do
  let patches ← patchesOfSetters (rows.map .record)
  return (← applyOverrides (.list (fields.map .record)) (.list (patches.map .record))).1

/-- The row names its field and its attribute by texts, as far as it names them. -/
structure IsSetterRow (row : Entries) : Prop where
  field : (row.get "field_name").IsTextual
  property : (row.get "property").IsTextual

/-- The setters of rows are those of the first row and of the others, in order. -/
theorem settersOf_cons (row : Entries) (rows : List Entries) :
    settersOf (row :: rows) = (do return (← setterOf row).toList ++ (← settersOf rows)) := by
  unfold settersOf
  rw [List.mapM_cons]
  cases setterOf row with
  | error f => rfl
  | ok s? =>
    cases rows.mapM setterOf with
    | error f => rfl
    | ok ss => cases s? <;> rfl

/-! ## One after the other -/

/-- **The fields can be told apart by their names.** A field without a name is like no other. -/
structure AreNamedApart (fields : List Entries) : Prop where
  keys : ∀ row ∈ fields, (row.get "fieldname").truthy = true → (row.get "fieldname").isKey = true
  apart : (fields.map (·.get "fieldname")).Pairwise fun v w => v.truthy = true → v.same w = false

/-- A field with all setters that name it, in order. -/
def afterSetters (ss : List Setter) (row : Entries) : Entries :=
  patched (patchesOf (ss.map Setter.patch) row) row

/-- Setters change no names, as none of their patches has one to give. -/
theorem get_name_afterSetters (ss : List Setter) (row : Entries) :
    (afterSetters ss row).get "fieldname" = row.get "fieldname" := by
  rw [Entries.get, Entries.get, afterSetters, get?_patched_name]

/-- Fields that can be told apart can be told apart after setters as well. -/
theorem AreNamedApart.afterSetters {fields : List Entries} (h : AreNamedApart fields)
    (ss : List Setter) : AreNamedApart (fields.map (afterSetters ss)) := by
  have hnames : (fields.map (FormScaffold.afterSetters ss)).map (·.get "fieldname") =
      fields.map (·.get "fieldname") := by
    rw [List.map_map]
    exact List.map_congr_left fun row _ => get_name_afterSetters ss row
  refine ⟨fun row hrow => ?_, hnames ▸ h.apart⟩
  obtain ⟨old, hold, rfl⟩ := List.mem_map.1 hrow
  rw [get_name_afterSetters]
  exact h.keys old hold

/-- The patch of a setter finds its field by the name that the setter says. -/
theorem Setter.get_name_patch (s : Setter) : s.patch.get "fieldname" = .text s.field := rfl

/-- The patch of a setter says everything once. -/
theorem Setter.nodup_patch (s : Setter) : (s.patch.map (·.1)).Nodup := by
  unfold Setter.patch
  split
  · simp
  · rename_i hproperty
    simpa using Ne.symm hproperty

/-- Patches one behind the other patch what the earlier ones left. -/
theorem patched_append (patches more : List Entries) (row : Entries) :
    patched (patches ++ more) row = patched more (patched patches row) :=
  List.foldl_append

/-- Setters one behind the other set what the earlier ones left. -/
theorem afterSetters_append (ss more : List Setter) (row : Entries) :
    afterSetters (ss ++ more) row = afterSetters more (afterSetters ss row) := by
  have hsame : patchesOf (more.map Setter.patch) (afterSetters ss row) =
      patchesOf (more.map Setter.patch) row := by
    refine List.filter_congr fun patch _ => ?_
    rw [targets, targets, isCalled, isCalled, get_name_afterSetters]
  rw [afterSetters, afterSetters, hsame, List.map_append, patchesOf_append, patched_append]
  rfl

section Apart

variable {fields : List Entries} (h : AreNamedApart fields)

include h

/-- **One row gives every field the setter that it holds**, if it names the field. At most one field
is named, as no two fields have one name. -/
theorem setOne_eq (row : Entries) :
    setOne fields row = (setterOf row).map fun s? => fields.map (afterSetters s?.toList) := by
  unfold setOne
  cases setterOf row with
  | error f => rfl
  | ok s? =>
    cases s? with
    | none => exact congrArg Except.ok (List.map_id fields).symm
    | some s =>
      have hover : AreOverridable fields [s.patch] := by
        refine ⟨h.keys, h.apart, ?_, ?_⟩
        · simpa using .inr ⟨s.field, s.get_name_patch⟩
        · simpa using s.nodup_patch
      exact bind_eq_ok.2 ⟨some s, rfl, bind_eq_ok.2 ⟨_, applyOverrides_eq hover, rfl⟩⟩

/-- **One after the other, every field gets the setters that name it**, in order. The induction is
on the rows; a value that cannot be read ends it. -/
theorem setInTurn_eq (rows : List Entries) :
    setInTurn fields rows = (settersOf rows).map fun ss => fields.map (afterSetters ss) := by
  unfold setInTurn
  induction rows generalizing fields with
  | nil => exact congrArg Except.ok (List.map_id fields).symm
  | cons row rows ih =>
    rw [List.foldlM_cons, setOne_eq h, settersOf_cons]
    cases setterOf row with
    | error f => rfl
    | ok s? =>
      -- A setter leaves all names, so the others find their fields as before.
      refine (ih (h.afterSetters s?.toList)).trans ?_
      cases settersOf rows with
      | error f => rfl
      | ok ss =>
        refine congrArg Except.ok (List.map_map.trans ?_)
        exact List.map_congr_left fun field _ => (afterSetters_append _ ss field).symm

end Apart

/-! ## Folded patches -/

/-- The setters of a field. -/
def settersFor (ss : List Setter) (field : String) : List Setter := ss.filter (·.field == field)

/-- The fields that setters name, in order of first mention. -/
def namedBy (ss : List Setter) : List String := (ss.map (·.field)).eraseDups

/-- The patch of a field that some setters fold into. -/
def foldPatch (field : String) (ss : List Setter) : Entries :=
  ss.foldl (fun patch s => Entries.put patch s.property s.value) [("fieldname", .text field)]

/-- The patch that the setters of a field fold into. -/
def foldedPatch (ss : List Setter) (field : String) : Entries :=
  foldPatch field (settersFor ss field)

/-- The patches with one setter more. -/
def addOne (patches : Keyed Entries) (s : Setter) : Keyed Entries :=
  addToPatch patches (.text s.field) s.property s.value

/-- A row adds the setter that it holds. -/
theorem addSetter_eq {row : Entries} (h : IsSetterRow row) (patches : Keyed Entries) :
    addSetter patches (.record row) =
      (setterOf row).map fun s? => s?.toList.foldl addOne patches := by
  obtain ⟨hfield, hproperty⟩ := h
  unfold addSetter setterOf
  simp only [Value.entries_record, bind, Except.bind, pure, Except.pure]
  generalize row.get "field_name" = field at *
  generalize row.get "property" = property at *
  generalize coerceProperty (row.get "value") (row.get "property_type") = coerced
  rcases hfield with rfl | ⟨field, rfl⟩
  · rfl
  rcases hproperty with rfl | ⟨property, rfl⟩
  · simp [Except.map]
  by_cases hempty : field = "" ∨ property = ""
  · rw [if_pos (by simpa [Value.truthy] using hempty)]
    simp [Except.map, hempty]
  · rw [if_neg (by simpa [Value.truthy] using hempty)]
    cases coerced <;> simp [Except.map, hempty, Value.entryName, Value.isKey, addOne]

/-- Folding rows into patches is folding the setters that they hold. A row whose value cannot be
read ends both. -/
theorem foldlM_addSetter {rows : List Entries} (h : ∀ row ∈ rows, IsSetterRow row)
    (patches : Keyed Entries) :
    (rows.map Value.record).foldlM addSetter patches =
      (settersOf rows).map fun ss => ss.foldl addOne patches := by
  induction rows generalizing patches with
  | nil => rfl
  | cons row rows ih =>
    obtain ⟨hrow, hrest⟩ := List.forall_mem_cons.1 h
    rw [List.map_cons, List.foldlM_cons, addSetter_eq hrow, settersOf_cons]
    cases setterOf row with
    | error f => rfl
    | ok s? =>
      refine (ih hrest _).trans ?_
      cases settersOf rows with
      | error f => rfl
      | ok ss => exact congrArg Except.ok (List.foldl_append ..).symm

/-- What is put under one of several names, each once, takes the place of what was there, and under
any other name it comes last. -/
theorem Keyed.put_map_text {α : Type} {names : List String} (hnodup : names.Nodup) {name : String}
    {f g : String → α} (hother : ∀ other ≠ name, g other = f other) :
    Keyed.put (names.map fun n => (.text n, f n)) (.text name) (g name) =
      (if name ∈ names then names else names ++ [name]).map fun n => (.text n, g n) := by
  induction names with
  | nil => rfl
  | cons first names ih =>
    obtain ⟨hfirst, hrest⟩ := List.nodup_cons.1 hnodup
    rw [List.map_cons, put]
    by_cases hsame : first = name
    · subst hsame
      have hlater : names.map (fun n => (Value.text n, f n)) = names.map fun n => (.text n, g n) :=
        List.map_congr_left fun n hn => by rw [hother n fun heq => hfirst (heq ▸ hn)]
      rw [if_pos (same_self first), if_pos List.mem_cons_self, hlater]
      rfl
    · rw [if_neg (mt same_text_iff.1 hsame), ih hrest]
      by_cases hmem : name ∈ names <;> simp [hmem, Ne.symm hsame, hother first hsame]

/-- What stands under one of several names is found by it, and nothing is found by another name. -/
theorem Keyed.get?_map_text {α : Type} (names : List String) (f : String → α) (name : String) :
    Keyed.get? (names.map fun n => (.text n, f n)) (.text name) =
      if name ∈ names then some (f name) else none := by
  induction names with
  | nil => rfl
  | cons first names ih =>
    rw [List.map_cons, Keyed.get?_cons, ih]
    simp only [same_text_iff, List.mem_cons, eq_comm (a := name)]
    by_cases hsame : first = name <;> simp [hsame]

/-- The fields that setters name are the fields of the setters. -/
theorem mem_namedBy {ss : List Setter} {field : String} :
    field ∈ namedBy ss ↔ ∃ s ∈ ss, s.field = field := by
  rw [namedBy, List.mem_eraseDups, List.mem_map]

/-- A field is named once, however many setters it has. -/
theorem nodup_namedBy (ss : List Setter) : (namedBy ss).Nodup := nodup_eraseDups _

/-- A setter more names its field, at the end when no setter named it before. -/
theorem namedBy_concat (ss : List Setter) (s : Setter) :
    namedBy (ss ++ [s]) =
      if s.field ∈ namedBy ss then namedBy ss else namedBy ss ++ [s.field] := by
  unfold namedBy
  rw [List.map_append, List.eraseDups_append]
  generalize ss.map (·.field) = names
  by_cases hmem : s.field ∈ names
  · simp [List.removeAll, hmem]
  · simp [List.removeAll, hmem, List.eraseDups_cons]

/-- A setter more puts its value in the patch of its field. -/
theorem foldedPatch_concat (ss : List Setter) (s : Setter) :
    foldedPatch (ss ++ [s]) s.field = (foldedPatch ss s.field).put s.property s.value := by
  simp [foldedPatch, foldPatch, settersFor, List.filter_append]

/-- A setter more leaves the patches of other fields as they are. -/
theorem foldedPatch_concat_of_ne (ss : List Setter) {s : Setter} {field : String}
    (h : field ≠ s.field) : foldedPatch (ss ++ [s]) field = foldedPatch ss field := by
  simp [foldedPatch, settersFor, List.filter_append, Ne.symm h]

/-- A field that no setter names has the patch that says nothing. -/
theorem foldedPatch_of_not_mem {ss : List Setter} {field : String} (h : field ∉ namedBy ss) :
    foldedPatch ss field = [("fieldname", .text field)] := by
  have hnone : settersFor ss field = [] := by
    rw [settersFor, List.filter_eq_nil_iff]
    intro s hs hfield
    exact h (mem_namedBy.2 ⟨s, hs, by simpa using hfield⟩)
  rw [foldedPatch, hnone]
  rfl

/-- **Setters fold into one patch for each field that they name.** The names stand in the order in
which the setters first name them. -/
theorem foldl_addOne (ss : List Setter) :
    ss.foldl addOne [] = (namedBy ss).map fun field => (.text field, foldedPatch ss field) := by
  induction ss using List.reverseRecOn with
  | nil => rfl
  | append_singleton ss s ih =>
    have hpatch : ((Keyed.get? ((namedBy ss).map fun field => (.text field, foldedPatch ss field))
        (.text s.field)).getD [("fieldname", .text s.field)]) = foldedPatch ss s.field := by
      rw [Keyed.get?_map_text]
      split
      · rfl
      · rename_i hnew
        exact (foldedPatch_of_not_mem hnew).symm
    rw [List.foldl_append, ih, namedBy_concat]
    refine Eq.trans ?_ (Keyed.put_map_text (nodup_namedBy ss)
      fun other hother => foldedPatch_concat_of_ne ss hother)
    rw [foldedPatch_concat, ← hpatch]
    rfl

/-- **The patches that rows fold into**: one for each field that is named, in the order of the first
setters of the fields, with the last value for each attribute. -/
theorem patchesOfSetters_eq {rows : List Entries} (h : ∀ row ∈ rows, IsSetterRow row) :
    patchesOfSetters (rows.map .record) =
      (settersOf rows).map fun ss => (namedBy ss).map (foldedPatch ss) := by
  unfold patchesOfSetters
  rw [foldlM_addSetter h]
  cases settersOf rows with
  | error f => rfl
  | ok ss =>
    have hpatches : (ss.foldl addOne []).map (·.2) = (namedBy ss).map (foldedPatch ss) := by
      rw [foldl_addOne, List.map_map]
      rfl
    exact congrArg Except.ok hpatches

/-! ## What a folded patch does -/

namespace Entries

/-- Of two values put under one key the later one stays. -/
theorem put_put (es : Entries) (key : String) (old new : Value) :
    (es.put key old).put key new = es.put key new := by
  induction es with
  | nil => simp [put]
  | cons e es ih =>
    obtain ⟨k, v⟩ := e
    by_cases hk : k == key <;> simp [put, hk, ih]

/-- A key that is there keeps its place, so it can be put before another one or after. -/
theorem put_comm {es : Entries} {key other : String} (hmem : key ∈ es.map (·.1))
    (hne : other ≠ key) (v w : Value) :
    (es.put other w).put key v = (es.put key v).put other w := by
  induction es with
  | nil => exact absurd hmem (by simp)
  | cons e es ih =>
    obtain ⟨k, old⟩ := e
    by_cases hk : k = key
    · subst hk
      simp [put, Ne.symm hne]
    · have hrest : key ∈ es.map (·.1) := by simpa [Ne.symm hk] using hmem
      by_cases ho : k = other <;> simp [put, hk, ho, hne, ih hrest]

end Entries

/-- An attribute put into a row, unless it is the name. -/
def putAttribute (row : Entries) (key : String) (v : Value) : Entries :=
  if key = "fieldname" then row else row.put key v

/-- A patch puts its attributes one by one, the first one first. -/
theorem patchRow_cons (key : String) (v : Value) (patch row : Entries) :
    patchRow ((key, v) :: patch) row = patchRow patch (putAttribute row key v) := by
  unfold patchRow putAttribute
  rw [List.foldl_cons]
  simp only [beq_iff_eq]

/-- What a patch does not have can be put before it or after. -/
theorem patchRow_putAttribute {patch row : Entries} {key : String} (hnew : key ∉ patch.map (·.1))
    (hmem : key ∈ row.map (·.1)) (v : Value) :
    patchRow patch (putAttribute row key v) = putAttribute (patchRow patch row) key v := by
  induction patch generalizing row with
  | nil => rfl
  | cons e patch ih =>
    obtain ⟨other, w⟩ := e
    rw [List.map_cons, List.mem_cons, not_or] at hnew
    have hstays : key ∈ (putAttribute row other w).map (·.1) := by
      unfold putAttribute
      split
      · exact hmem
      · rw [map_fst_put]
        split
        · exact hmem
        · exact List.mem_append_left _ hmem
    have hswap : putAttribute (putAttribute row key v) other w =
        putAttribute (putAttribute row other w) key v := by
      unfold putAttribute
      split <;> split <;> first | rfl | exact (Entries.put_comm hmem (Ne.symm hnew.1) v w).symm
    rw [patchRow_cons, patchRow_cons, hswap, ih hnew.2 hstays]

/-- **What is put into a patch is put into the row.** The place at which an attribute stands in the
patch does not matter for the row. -/
theorem patchRow_put {patch : Entries} (hnodup : (patch.map (·.1)).Nodup) (key : String) (v : Value)
    (row : Entries) :
    patchRow (patch.put key v) row = putAttribute (patchRow patch row) key v := by
  induction patch generalizing row with
  | nil => exact patchRow_cons key v [] row
  | cons e patch ih =>
    obtain ⟨k, old⟩ := e
    obtain ⟨hk, hrest⟩ := List.nodup_cons.1 hnodup
    rw [Entries.put]
    by_cases hsame : k = key
    · subst hsame
      rw [if_pos (beq_self_eq_true k), patchRow_cons, patchRow_cons]
      by_cases hname : k = "fieldname"
      · simp [putAttribute, hname]
      · -- The old value is put first, and then the key is there.
        have hagain : putAttribute row k v = putAttribute (putAttribute row k old) k v := by
          simp [putAttribute, hname, Entries.put_put]
        have hmem : k ∈ (putAttribute row k old).map (·.1) := by
          rw [putAttribute, if_neg hname, map_fst_put]
          split
          · assumption
          · simp
        rw [hagain, patchRow_putAttribute hk hmem]
    · rw [if_neg (by simpa using hsame), patchRow_cons, patchRow_cons, ih hrest]

/-- The patch of a setter puts its one attribute. -/
theorem Setter.patchRow_patch (s : Setter) (row : Entries) :
    patchRow s.patch row = putAttribute row s.property s.value := by
  unfold Setter.patch
  rw [patchRow_cons]
  by_cases hname : s.property = "fieldname" <;> simp [putAttribute, hname, patchRow]

/-- The patch of setters and one more is the patch of those before with one value put in it. -/
theorem foldPatch_concat (field : String) (ss : List Setter) (s : Setter) :
    foldPatch field (ss ++ [s]) = (foldPatch field ss).put s.property s.value :=
  List.foldl_append

/-- A folded patch says everything once, so that the order in which it is put does not matter. -/
theorem nodup_foldPatch (field : String) (ss : List Setter) :
    ((foldPatch field ss).map (·.1)).Nodup := by
  induction ss using List.reverseRecOn with
  | nil => exact List.nodup_singleton _
  | append_singleton ss s ih =>
    rw [foldPatch_concat]
    exact nodup_put ih _ _

/-- **A folded patch does what its setters do.** The last value that the setters give an attribute
is the one that counts, both ways. -/
theorem patchRow_foldPatch (field : String) (ss : List Setter) (row : Entries) :
    patchRow (foldPatch field ss) row = patched (ss.map Setter.patch) row := by
  induction ss using List.reverseRecOn with
  | nil => rfl
  | append_singleton ss s ih =>
    rw [foldPatch_concat, patchRow_put (nodup_foldPatch field ss), ih, List.map_append,
      patched_append, ← Setter.patchRow_patch]
    rfl

/-! ## All folded patches -/

/-- The name in the patch of a field: the last one that a setter of the field gives, and the name of
the field when none gives one. -/
def aimOf (ss : List Setter) (field : String) : Value :=
  (((settersFor ss field).filter (·.property == "fieldname")).map (·.value)).getLast?.getD
    (.text field)

/-- **The setters that reach a row**: all setters of the fields whose patches have its name. -/
def settersReaching (ss : List Setter) (row : Entries) : List Setter :=
  ((namedBy ss).filter fun field => isCalled (aimOf ss field) row).flatMap (settersFor ss)

/-- The name in the patch of a field is the one that its setters aim at. -/
theorem get_name_foldedPatch (ss : List Setter) (field : String) :
    (foldedPatch ss field).get "fieldname" = aimOf ss field := by
  unfold foldedPatch aimOf
  induction settersFor ss field using List.reverseRecOn with
  | nil => rfl
  | append_singleton mine s ih =>
    rw [foldPatch_concat, Entries.get, Entries.get?_put, List.filter_append]
    by_cases hname : s.property = "fieldname"
    · simp [hname]
    · simpa [hname, Entries.get] using ih

/-- Folded patches do what the setters of their fields do. -/
theorem patched_foldedPatches (ss : List Setter) (names : List String) (row : Entries) :
    patched (names.map (foldedPatch ss)) row =
      patched ((names.flatMap (settersFor ss)).map Setter.patch) row := by
  induction names generalizing row with
  | nil => rfl
  | cons field names ih =>
    rw [List.flatMap_cons, List.map_append, patched_append,
      ← patchRow_foldPatch field (settersFor ss field)]
    exact ih _

/-- **All patches give every field the setters that reach it.** A patch reaches the rows with the
name that it says, which need not be the field whose setters it folds. -/
theorem setTogether_eq {fields rows : List Entries} (h : AreNamedApart fields)
    (hrows : ∀ row ∈ rows, IsSetterRow row) {ss : List Setter} (hss : settersOf rows = .ok ss)
    (haims : ∀ s ∈ ss, (aimOf ss s.field).IsTextual) :
    setTogether fields rows =
      .ok (fields.map fun row => patched ((settersReaching ss row).map Setter.patch) row) := by
  have hpatches :
      patchesOfSetters (rows.map .record) = .ok ((namedBy ss).map (foldedPatch ss)) := by
    rw [patchesOfSetters_eq hrows, hss]
    rfl
  have hover : AreOverridable fields ((namedBy ss).map (foldedPatch ss)) := by
    refine ⟨h.keys, h.apart, ?_, ?_⟩
    all_goals
      rintro patch hpatch
      obtain ⟨field, hfield, rfl⟩ := List.mem_map.1 hpatch
    · obtain ⟨s, hs, rfl⟩ := mem_namedBy.1 hfield
      rw [get_name_foldedPatch]
      exact haims s hs
    · exact nodup_foldPatch field _
  refine bind_eq_ok.2 ⟨_, hpatches, bind_eq_ok.2 ⟨_, applyOverrides_eq hover, ?_⟩⟩
  refine congrArg Except.ok (List.map_congr_left fun row _ => ?_)
  -- The patches that reach a row are those of the fields whose aim it is called by.
  have hreach : patchesOf ((namedBy ss).map (foldedPatch ss)) row =
      ((namedBy ss).filter fun field => isCalled (aimOf ss field) row).map (foldedPatch ss) := by
    rw [patchesOf, List.filter_map]
    refine congrArg _ (List.filter_congr fun field _ => ?_)
    rw [Function.comp, targets, get_name_foldedPatch]
  show patched (patchesOf _ row) row = _
  rw [hreach, patched_foldedPatches]
  rfl

/-- The setters that name a row, as patches of it. -/
theorem patchesOf_setters (ss : List Setter) (row : Entries) :
    patchesOf (ss.map Setter.patch) row =
      (ss.filter fun s => isCalled (.text s.field) row).map Setter.patch :=
  List.filter_map

/-- **When every patch has the name of its field, the setters that reach a row are those that name
it**, in their order. -/
theorem settersReaching_eq {ss : List Setter} (haims : ∀ s ∈ ss, aimOf ss s.field = .text s.field)
    (row : Entries) :
    settersReaching ss row = ss.filter fun s => isCalled (.text s.field) row := by
  have hnames : (namedBy ss).filter (fun field => isCalled (aimOf ss field) row) =
      (namedBy ss).filter fun field => isCalled (.text field) row := by
    refine List.filter_congr fun field hfield => ?_
    obtain ⟨s, hs, rfl⟩ := mem_namedBy.1 hfield
    rw [haims s hs]
  rw [settersReaching, hnames]
  by_cases hnamed : ∃ field ∈ namedBy ss, isCalled (.text field) row = true
  · obtain ⟨field, hfield, hcalled⟩ := hnamed
    -- The row has one name only.
    have honly : ∀ other, isCalled (.text other) row = (other == field) := by
      intro other
      rw [Bool.eq_iff_iff, beq_iff_eq]
      constructor
      · intro hother
        have hname := eq_of_isCalled (.inr ⟨other, rfl⟩) hother
        exact Value.text.inj (hname.symm.trans (eq_of_isCalled (.inr ⟨field, rfl⟩) hcalled))
      · rintro rfl
        exact hcalled
    simp only [honly]
    rw [List.filter_beq, List.count_eq_one_of_mem (nodup_namedBy ss) hfield]
    exact List.append_nil _
  · have hnone : ∀ field ∈ namedBy ss, ¬isCalled (.text field) row = true :=
      fun field hfield hcalled => hnamed ⟨field, hfield, hcalled⟩
    rw [List.filter_eq_nil_iff.2 hnone, List.filter_eq_nil_iff.2]
    · rfl
    · exact fun s hs => hnone s.field (mem_namedBy.2 ⟨s, hs, rfl⟩)

/-- **Folding setters is the same as applying them one at a time**, when the last name that the
setters of a field give it is its own. The fields can be told apart by their names, and the rows
name fields and attributes by texts. Both ways fail alike when a value is too large for its type.
One at a time, the setters change only the rows that they name. Folded, all setters of a field go to
the row whose name the last setter of the name gives, whichever field that is. -/
theorem setTogether_eq_setInTurn {fields rows : List Entries} (h : AreNamedApart fields)
    (hrows : ∀ row ∈ rows, IsSetterRow row) :
    (∀ f, settersOf rows = .error f →
      setTogether fields rows = .error f ∧ setInTurn fields rows = .error f) ∧
    ∀ ss, settersOf rows = .ok ss →
      setInTurn fields rows = .ok (fields.map (afterSetters ss)) ∧
      (∀ row, (∀ s ∈ ss, row.get "fieldname" ≠ .text s.field) → afterSetters ss row = row) ∧
      ((∀ s ∈ ss, (aimOf ss s.field).IsTextual) → setTogether fields rows =
        .ok (fields.map fun row => patched ((settersReaching ss row).map Setter.patch) row)) ∧
      ((∀ s ∈ ss, aimOf ss s.field = .text s.field) →
        setTogether fields rows = setInTurn fields rows) := by
  have hturn := setInTurn_eq h rows
  refine ⟨fun f hf => ⟨?_, ?_⟩, fun ss hss => ⟨?_, ?_, setTogether_eq h hrows hss, ?_⟩⟩
  · refine bind_eq_error.2 (.inl ?_)
    rw [patchesOfSetters_eq hrows, hf]
    rfl
  · rw [hturn, hf]
    rfl
  · rw [hturn, hss]
    rfl
  · intro row hother
    have hnone : ∀ s ∈ ss, ¬isCalled (.text s.field) row = true :=
      fun s hs hcalled => hother s hs (eq_of_isCalled (.inr ⟨s.field, rfl⟩) hcalled)
    rw [afterSetters, patchesOf_setters, List.filter_eq_nil_iff.2 hnone]
    rfl
  -- Where each name aims at itself, the setters that reach a row are those of its name.
  · intro haims
    have htextual : ∀ s ∈ ss, (aimOf ss s.field).IsTextual :=
      fun s hs => .inr ⟨s.field, haims s hs⟩
    rw [setTogether_eq h hrows hss htextual, hturn, hss]
    refine congrArg Except.ok (List.map_congr_left fun row _ => ?_)
    rw [settersReaching_eq haims, afterSetters, patchesOf_setters]

/-- Two fields of an order. -/
def orderFields : List Entries :=
  [[("fieldname", .text "item"), ("label", .text "Item")], [("fieldname", .text "qty")]]

/-- A row of setters. -/
def setterRow (field property value type : String) : Entries :=
  [("field_name", .text field), ("property", .text property), ("value", .text value),
    ("property_type", .text type)]

/-- Setters of both fields in turn, of which one repeats the name of its field, and a row that holds
none. -/
def orderSetters : List Entries :=
  [setterRow "qty" "label" "Number" "Data", setterRow "item" "label" "Product" "Data",
    [("field_name", .null), ("property", .text "x")], setterRow "qty" "fieldname" "qty" "Data",
    setterRow "qty" "label" "Quantity" "Data"]

/-- Setters of one field, of which one gives it the name of the other. -/
def renamingSetters : List Entries :=
  [setterRow "qty" "fieldname" "item" "Data", setterRow "qty" "label" "Quantity" "Data"]

/-- The label of the quantity is the last one either way. Under the name of the other field the same
label goes to the item. -/
theorem setTogether_eq_setInTurn_order :
    AreNamedApart orderFields ∧
      setTogether orderFields orderSetters = setInTurn orderFields orderSetters ∧
      (∃ item qty, setTogether orderFields orderSetters = .ok [item, qty] ∧
        item.get "label" = .text "Product" ∧ qty.get "label" = .text "Quantity") ∧
      ∃ item qty, setTogether orderFields renamingSetters = .ok [item, qty] ∧
        item.get "label" = .text "Quantity" ∧ qty.get "label" = .null := by
  have h : AreNamedApart orderFields := ⟨by decide, by decide⟩
  have hrow : ∀ field property value type, IsSetterRow (setterRow field property value type) :=
    fun field property value type => ⟨.inr ⟨field, rfl⟩, .inr ⟨property, rfl⟩⟩
  have hnone : IsSetterRow [("field_name", .null), ("property", .text "x")] :=
    ⟨.inl rfl, .inr ⟨_, rfl⟩⟩
  have hrows : ∀ row ∈ orderSetters, IsSetterRow row := by simp [orderSetters, hrow, hnone]
  have hrenaming : ∀ row ∈ renamingSetters, IsSetterRow row := by simp [renamingSetters, hrow]
  obtain ⟨-, hboth⟩ := setTogether_eq_setInTurn h hrows
  obtain ⟨-, hrenamed⟩ := setTogether_eq_setInTurn h hrenaming
  have hread : settersOf orderSetters = .ok [⟨"qty", "label", .text "Number"⟩,
      ⟨"item", "label", .text "Product"⟩, ⟨"qty", "fieldname", .text "qty"⟩,
      ⟨"qty", "label", .text "Quantity"⟩] := rfl
  have hread' : settersOf renamingSetters =
      .ok [⟨"qty", "fieldname", .text "item"⟩, ⟨"qty", "label", .text "Quantity"⟩] := rfl
  obtain ⟨hturn, -, -, hsame⟩ := hboth _ hread
  have haims := hsame (by simp [aimOf, settersFor])
  obtain ⟨-, -, hreach, -⟩ := hrenamed _ hread'
  have hmisled := hreach (by simp [aimOf, settersFor, Value.IsTextual])
  exact ⟨h, haims, ⟨_, _, haims.trans hturn, rfl, rfl⟩, _, _, hmisled, rfl, rfl⟩

end FormScaffold
