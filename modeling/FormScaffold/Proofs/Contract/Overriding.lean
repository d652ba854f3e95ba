import FormScaffold.Proofs.Contract.Plain
import FormScaffold.Proofs.Contract.Textual

/-! # Overrides attribute by attribute

Patches are folded into the rows one after the other. When no two rows share a name, a patch
reaches one row at most, and it never changes a name; so what becomes of a row depends on the
patches of that row alone, and each of its attributes is what the last of them that has it says.

* `targets`, `patchesOf` — the patches that name a row;
* **`applyPatches_eq`** — all rows after all patches, and the patches that are passed over;
* `get?_patched` — one attribute of one row;
* **`lastGiven_of_applyOverrides`** — the last patch wins, attribute by attribute, and patches of
  different rows commute. -/

namespace FormScaffold

/-! ## Patches of a row -/

/-- Whether the patch names the row. -/
def targets (patch row : Entries) : Bool := isCalled (patch.get "fieldname") row

/-- The patches that name the row, in order. -/
def patchesOf (patches : List Entries) (row : Entries) : List Entries :=
  patches.filter (targets · row)

/-- The patches that name a row, the first patch apart. -/
theorem patchesOf_cons (patch : Entries) (patches : List Entries) (row : Entries) :
    patchesOf (patch :: patches) row =
      if targets patch row then patch :: patchesOf patches row else patchesOf patches row :=
  List.filter_cons

/-- The patches that name a row among patches one behind the other. -/
theorem patchesOf_append (patches more : List Entries) (row : Entries) :
    patchesOf (patches ++ more) row = patchesOf patches row ++ patchesOf more row :=
  List.filter_append _ _

/-- A row with patches, one after the other. -/
def patched (patches : List Entries) (row : Entries) : Entries :=
  patches.foldl (fun r patch => patchRow patch r) row

/-- What the last of the patches that have an attribute says of it. -/
def lastGiven? (key : String) (patches : List Entries) : Option Value :=
  patches.reverse.findSome? (·.get? key)

/-- What later patches say of an attribute counts before what the first one says. -/
theorem lastGiven?_cons (key : String) (patch : Entries) (patches : List Entries) :
    lastGiven? key (patch :: patches) = (lastGiven? key patches).or (patch.get? key) := by
  simp [lastGiven?, List.findSome?_append, List.findSome?_singleton]

/-- A key that no entry has is not found. -/
theorem Entries.get?_eq_none {es : Entries} {key : String} (h : key ∉ es.map (·.1)) :
    es.get? key = none := by
  induction es with
  | nil => rfl
  | cons e es ih =>
    rw [List.map_cons, List.mem_cons, not_or] at h
    rw [Entries.get?_cons, if_neg (by simpa using Ne.symm h.1), ih h.2]

/-- A patch leaves the name of a row. -/
theorem get?_patchRow_name (patch row : Entries) :
    (patchRow patch row).get? "fieldname" = row.get? "fieldname" := by
  unfold patchRow
  induction patch generalizing row with
  | nil => rfl
  | cons e patch ih =>
    rw [List.foldl_cons, ih]
    split
    · rfl
    · rename_i hname
      rw [Entries.get?_put, if_neg hname]

/-- A patch leaves the name of a row. -/
theorem get_patchRow_name (patch row : Entries) :
    (patchRow patch row).get "fieldname" = row.get "fieldname" := by
  rw [Entries.get, Entries.get, get?_patchRow_name]

/-- **One attribute of a row after a patch**: that of the patch, when the patch has it. The name is
never patched, and an attribute that the row did not have is put at its end. -/
theorem get?_patchRow {patch : Entries} (hnodup : (patch.map (·.1)).Nodup) (row : Entries)
    {key : String} (hkey : key ≠ "fieldname") :
    (patchRow patch row).get? key = (patch.get? key).or (row.get? key) := by
  unfold patchRow
  induction patch generalizing row with
  | nil => rfl
  | cons e patch ih =>
    obtain ⟨k, v⟩ := e
    obtain ⟨hk, hrest⟩ := List.nodup_cons.1 hnodup
    rw [List.foldl_cons, ih hrest, Entries.get?_cons]
    by_cases hsame : k = key
    · -- No later entry has the key once more.
      subst hsame
      simp [Entries.get?_eq_none hk, Entries.get?_put, hkey]
    · have hother : (if (k == "fieldname") = true then row else row.put k v).get? key =
          row.get? key := by
        split
        · rfl
        · rw [Entries.get?_put, if_neg (by simpa using hsame)]
      rw [hother, if_neg (by simpa using hsame)]

/-- Patches leave the name of a row, and also whether it has one. -/
theorem get?_patched_name (patches : List Entries) (row : Entries) :
    (patched patches row).get? "fieldname" = row.get? "fieldname" := by
  unfold patched
  induction patches generalizing row with
  | nil => rfl
  | cons patch patches ih => rw [List.foldl_cons, ih, get?_patchRow_name]

/-- **One attribute of a row after patches**: that of the last patch that has it. What the row had
stays only when none of the patches has the attribute. -/
theorem get?_patched {patches : List Entries} (h : ∀ p ∈ patches, (p.map (·.1)).Nodup)
    (row : Entries) {key : String} (hkey : key ≠ "fieldname") :
    (patched patches row).get? key = (lastGiven? key patches).or (row.get? key) := by
  unfold patched
  induction patches generalizing row with
  | nil => rfl
  | cons patch patches ih =>
    obtain ⟨hpatch, hrest⟩ := List.forall_mem_cons.1 h
    rw [List.foldl_cons, ih hrest, get?_patchRow hpatch row hkey, lastGiven?_cons, Option.or_assoc]

/-! ## Patches of rows -/

/-- **The rows can be told apart by their names, and the patches name rows by texts.** A row without
a name is like no other; a patch is a record and has no key twice. -/
structure AreOverridable (rows patches : List Entries) : Prop where
  keys : ∀ row ∈ rows, (row.get "fieldname").truthy = true → (row.get "fieldname").isKey = true
  apart : (rows.map (·.get "fieldname")).Pairwise fun v w => v.truthy = true → v.same w = false
  textual : ∀ patch ∈ patches, (patch.get "fieldname").IsTextual
  nodup : ∀ patch ∈ patches, (patch.map (·.1)).Nodup

/-- A row that is called by a text has it as its name. -/
theorem eq_of_isCalled {name : Value} (h : name.IsTextual) {row : Entries}
    (hrow : isCalled name row = true) : row.get "fieldname" = name := by
  obtain ⟨htruthy, hsame⟩ := Bool.and_eq_true_iff.1 hrow
  rcases h with rfl | ⟨s, rfl⟩
  · cases hname : row.get "fieldname" <;>
      simp_all [Value.same, Value.sameScalar, Value.scalar?]
  · exact same_text hsame

/-- A row after one patch of the list, which may name another row. -/
def afterPatch (patch row : Entries) : Entries :=
  if targets patch row then patchRow patch row else row

/-- A patch leaves by which patches a row is named. -/
theorem targets_afterPatch (patch other row : Entries) :
    targets other (afterPatch patch row) = targets other row := by
  unfold afterPatch
  split
  · rw [targets, targets, isCalled, isCalled, get_patchRow_name]
  · rfl

/-- A row is named by the same patches after one of them. -/
theorem patchesOf_afterPatch (patch : Entries) (patches : List Entries) (row : Entries) :
    patchesOf patches (afterPatch patch row) = patchesOf patches row :=
  List.filter_congr fun other _ => targets_afterPatch patch other row

/-- A patch leaves the names of rows. -/
theorem map_name_afterPatch (patch : Entries) (rows : List Entries) :
    (rows.map (afterPatch patch)).map (·.get "fieldname") = rows.map (·.get "fieldname") := by
  rw [List.map_map]
  refine List.map_congr_left fun row _ => ?_
  show (afterPatch patch row).get "fieldname" = row.get "fieldname"
  unfold afterPatch
  split
  · exact get_patchRow_name patch row
  · rfl

/-- What fits none of the rows leaves them. -/
theorem map_ite_eq_self {p : Entries → Bool} (f : Entries → Entries) {rows : List Entries}
    (h : ∀ row ∈ rows, ¬p row = true) : rows.map (fun row => if p row then f row else row) = rows :=
  (List.map_congr_left fun row hrow => if_neg (h row hrow)).trans (List.map_id rows)

/-- The last one of the rows that fit, when only one fits, is the one. -/
theorem modifyLast_eq {p : Entries → Bool} {f : Entries → Entries} {rows : List Entries}
    (h : rows.Pairwise fun a b => p a = true → ¬p b = true) :
    modifyLast p f rows =
      if rows.any p then some (rows.map fun row => if p row then f row else row) else none := by
  induction rows with
  | nil => rfl
  | cons row rows ih =>
    obtain ⟨hrow, hrows⟩ := List.pairwise_cons.1 h
    rw [modifyLast, ih hrows, List.any_cons, List.map_cons]
    cases hp : p row with
    | false => cases rows.any p <;> simp
    | true =>
      -- The other rows do not fit, so they stay as they are.
      have hother : ∀ b ∈ rows, ¬p b = true := fun b hb => hrow b hb hp
      have hnone : rows.any p = false := List.any_eq_false.2 hother
      rw [hnone, map_ite_eq_self f hother]
      rfl

section Overridable

variable {rows patches : List Entries} {patch : Entries}
  (hapart : (rows.map (·.get "fieldname")).Pairwise fun v w => v.truthy = true → v.same w = false)

include hapart

/-- At most one row is named by a patch. -/
theorem pairwise_targets (htextual : (patch.get "fieldname").IsTextual) :
    rows.Pairwise fun a b => targets patch a = true → ¬targets patch b = true := by
  refine (List.pairwise_map.1 hapart).imp fun {a b} h ha hb => ?_
  -- Both rows would have the name of the patch.
  obtain ⟨htruthy, hsame⟩ := Bool.and_eq_true_iff.1 ha
  have hdiffer := h htruthy
  rw [eq_of_isCalled htextual hb, hsame] at hdiffer
  exact absurd hdiffer (by decide)

/-- **One patch changes just the rows that it names**, and warns when it names none. The rows can be
told apart, so that the last row that is named is the only one. -/
theorem applyPatch_eq (htextual : (patch.get "fieldname").IsTextual) :
    applyPatch rows patch = (rows.map (afterPatch patch),
      if rows.any (targets patch) then [] else [.unknownOverride (patch.get "fieldname")]) := by
  have hlast : modifyLast (isCalled (patch.get "fieldname")) (patchRow patch) rows =
      if rows.any (targets patch) then some (rows.map (afterPatch patch)) else none :=
    modifyLast_eq (pairwise_targets hapart htextual)
  unfold applyPatch
  simp only [hlast]
  cases hany : rows.any (targets patch) with
  | true => rfl
  | false =>
    have hsame : rows.map (afterPatch patch) = rows :=
      map_ite_eq_self _ (List.any_eq_false.1 hany)
    rw [hsame]
    rfl

end Overridable

/-- The patches that name no row. -/
def strayPatches (rows patches : List Entries) : List Entries :=
  patches.filter fun patch => !rows.any (targets patch)

/-- The patches that name no row are the same after one of them. -/
theorem strayPatches_afterPatch (patch : Entries) (rows patches : List Entries) :
    strayPatches (rows.map (afterPatch patch)) patches = strayPatches rows patches := by
  refine List.filter_congr fun other _ => ?_
  rw [List.any_map]
  congr 2
  funext row
  exact targets_afterPatch patch other row

/-- **The rows after patches** are the rows with the patches that name them, and the patches that
name no row are passed over. The warnings about the latter come in the order of the patches. -/
theorem applyPatches_eq {rows patches : List Entries} (h : AreOverridable rows patches) :
    applyPatches rows (patches.map .record) =
      .ok (rows.map fun row => patched (patchesOf patches row) row,
        (strayPatches rows patches).map fun patch => .unknownOverride (patch.get "fieldname")) := by
  have hapart := h.apart
  have htextual := h.textual
  clear h
  induction patches generalizing rows with
  | nil => simp [applyPatches, patchesOf, patched, strayPatches]
  | cons patch patches ih =>
    obtain ⟨hpatch, hrest⟩ := List.forall_mem_cons.1 htextual
    have hkey : (patch.get "fieldname").key = .ok (patch.get "fieldname") :=
      key_eq_ok.2 ⟨hpatch.isKey, rfl⟩
    -- The patch leaves all names, so the later patches find their rows as before.
    have hlater := @ih (rows.map (afterPatch patch)) (by rwa [map_name_afterPatch]) hrest
    rw [strayPatches_afterPatch, List.map_map] at hlater
    refine bind_eq_ok.2 ⟨patch, rfl, bind_eq_ok.2 ⟨_, hkey, ?_⟩⟩
    rw [applyPatch_eq hapart hpatch]
    refine bind_eq_ok.2 ⟨_, hlater, ?_⟩
    refine congrArg Except.ok (Prod.ext ?_ ?_)
    · refine List.map_congr_left fun row _ => ?_
      show patched (patchesOf patches (afterPatch patch row)) (afterPatch patch row) = _
      rw [patchesOf_afterPatch, patchesOf_cons, afterPatch]
      cases targets patch row <;> rfl
    · simp only [strayPatches, List.filter_cons]
      cases rows.any (targets patch) <;> rfl

/-! ## Overrides -/

/-- Names that can be looked up are. -/
theorem forM_checkName {rows : List Entries} (h : ∀ row ∈ rows,
    (row.get "fieldname").truthy = true → (row.get "fieldname").isKey = true) :
    rows.forM checkName = .ok () := by
  induction rows with
  | nil => rfl
  | cons row rows ih =>
    obtain ⟨hrow, hrows⟩ := List.forall_mem_cons.1 h
    refine bind_eq_ok.2 ⟨(), ?_, ih hrows⟩
    unfold checkName
    simp only
    split
    · rename_i htruthy
      exact bind_eq_ok.2 ⟨_, key_eq_ok.2 ⟨hrow htruthy, rfl⟩, rfl⟩
    · rfl

/-- **All rows after all patches**, as raw data. Overrides that are missing are none. -/
theorem applyOverrides_eq {rows patches : List Entries} (h : AreOverridable rows patches) :
    applyOverrides (.list (rows.map .record)) (.list (patches.map .record)) =
      .ok (rows.map fun row => patched (patchesOf patches row) row,
        (strayPatches rows patches).map fun patch => .unknownOverride (patch.get "fieldname")) := by
  have hrecords : (rows.map Value.record).mapM Value.asRecord = .ok rows := by
    rw [mapM_eq_ok, List.forall₂_map_left_iff]
    exact List.forall₂_same.2 fun row _ => rfl
  refine bind_eq_ok.2 ⟨_, elementsOrNone_records rows, bind_eq_ok.2 ⟨_, hrecords, ?_⟩⟩
  refine bind_eq_ok.2 ⟨(), forM_checkName h.keys, ?_⟩
  exact bind_eq_ok.2 ⟨_, elementsOrNone_records patches, applyPatches_eq h⟩

/-! ### Patches of different rows -/

section Swap

variable {rows : List Entries} {p q : Entries} (first rest : List Entries)

/-- When no row is named by both of two patches, every row has its patches in the same order in
whichever order the two stand. -/
theorem patchesOf_swap {row : Entries} (h : ¬(targets p row = true ∧ targets q row = true)) :
    patchesOf (first ++ q :: p :: rest) row = patchesOf (first ++ p :: q :: rest) row := by
  simp only [patchesOf_append, patchesOf_cons]
  cases hp : targets p row with
  | false => rfl
  | true =>
    cases hq : targets q row with
    | false => rfl
    | true => exact absurd ⟨hp, hq⟩ h

/-- When one of two patches names a row, the same patches are passed over in either order. -/
theorem strayPatches_swap (h : rows.any (targets p) = true) :
    strayPatches rows (first ++ q :: p :: rest) = strayPatches rows (first ++ p :: q :: rest) := by
  simp only [strayPatches, List.filter_append, List.filter_cons, h, Bool.not_true]
  rfl

/-- Whether rows can be overridden does not depend on the order of the patches. -/
theorem AreOverridable.swap (h : AreOverridable rows (first ++ p :: q :: rest)) :
    AreOverridable rows (first ++ q :: p :: rest) := by
  have hperm : (first ++ p :: q :: rest).Perm (first ++ q :: p :: rest) :=
    (List.Perm.swap q p rest).append_left first
  exact ⟨h.keys, h.apart, fun patch hpatch => h.textual patch (hperm.mem_iff.2 hpatch),
    fun patch hpatch => h.nodup patch (hperm.mem_iff.2 hpatch)⟩

end Swap

/-- **The last patch wins, attribute by attribute.** When no two rows share a name and the patches
name rows by texts, the rows stay in their order and keep their names; every other attribute of a
row is what the last of the patches of the row that have the attribute says, and what it was before
when none of them has it. Patches that name no row are passed over with one warning each, in order,
and of two patches next to each other that name different rows either may come first. -/
theorem lastGiven_of_applyOverrides {rows patches : List Entries}
    (h : AreOverridable rows patches) :
    ∃ made, applyOverrides (.list (rows.map .record)) (.list (patches.map .record)) =
        .ok (made, (strayPatches rows patches).map fun patch =>
          .unknownOverride (patch.get "fieldname")) ∧
      List.Forall₂ (fun row result => result.get? "fieldname" = row.get? "fieldname" ∧
        ∀ key ≠ "fieldname", result.get? key =
          (lastGiven? key (patchesOf patches row)).or (row.get? key)) rows made ∧
      ∀ first p q rest, patches = first ++ p :: q :: rest → ∀ row ∈ rows,
        targets p row = true → targets q row = false →
        applyOverrides (.list (rows.map .record)) (.list ((first ++ q :: p :: rest).map .record)) =
          applyOverrides (.list (rows.map .record)) (.list (patches.map .record)) := by
  refine ⟨_, applyOverrides_eq h, ?_, ?_⟩
  · rw [List.forall₂_map_right_iff, List.forall₂_same]
    intro row _
    refine ⟨get?_patched_name _ row, fun key hkey => get?_patched ?_ row hkey⟩
    exact fun patch hpatch => h.nodup patch (List.mem_of_mem_filter hpatch)
  · rintro first p q rest rfl row hrow hp hq
    have htextual : (p.get "fieldname").IsTextual := h.textual p (by simp)
    have hapart : ∀ other ∈ rows, ¬(targets p other = true ∧ targets q other = true) := by
      rintro other - ⟨hp', hq'⟩
      -- The other row would have the name of this one, which the second patch does not name.
      have hname : other.get "fieldname" = row.get "fieldname" :=
        (eq_of_isCalled htextual hp').trans (eq_of_isCalled htextual hp).symm
      have hsame : targets q row = targets q other := by
        rw [targets, targets, isCalled, isCalled, hname]
      rw [← hsame, hq] at hq'
      exact absurd hq' (by decide)
    have hany : rows.any (targets p) = true := List.any_eq_true.2 ⟨row, hrow, hp⟩
    rw [applyOverrides_eq h, applyOverrides_eq (h.swap first rest),
      strayPatches_swap first rest hany]
    congr 2
    exact List.map_congr_left fun other hother => by
      rw [patchesOf_swap first rest (hapart other hother)]

/-- Two fields of a task. -/
def taskRows : List Entries :=
  [[("fieldname", .text "title"), ("reqd", .int 0)],
    [("fieldname", .text "status"), ("label", .text "State")]]

/-- Patches of both fields in turn, and of a field that does not exist. -/
def taskPatches : List Entries :=
  [[("fieldname", .text "status"), ("label", .text "Status"), ("reqd", .int 1)],
    [("fieldname", .text "ghost"), ("hidden", .int 1)],
    [("fieldname", .text "title"), ("reqd", .int 1)],
    [("reqd", .int 0), ("fieldname", .text "status")]]

/-- The second patch of the status takes back one attribute and leaves the other. -/
theorem lastGiven_of_applyOverrides_task :
    AreOverridable taskRows taskPatches ∧
      ∃ title status, applyOverrides (.list (taskRows.map .record))
          (.list (taskPatches.map .record)) =
        .ok ([title, status], [.unknownOverride (.text "ghost")]) ∧
        title.get? "reqd" = some (.int 1) ∧ title.get? "label" = none ∧
        status.get? "reqd" = some (.int 0) ∧ status.get? "label" = some (.text "Status") := by
  have h : AreOverridable taskRows taskPatches := by
    refine ⟨by decide, by decide, ?_, by decide⟩
    simp [taskPatches, Value.IsTextual, Entries.get, Entries.get?]
  obtain ⟨made, hmade, hrows, -⟩ := lastGiven_of_applyOverrides h
  obtain ⟨title, others, ⟨-, htitle⟩, hothers, rfl⟩ := List.forall₂_cons_left_iff.1 hrows
  obtain ⟨status, none, ⟨-, hstatus⟩, hnone, rfl⟩ := List.forall₂_cons_left_iff.1 hothers
  obtain rfl := List.forall₂_nil_left_iff.1 hnone
  exact ⟨h, title, status, hmade, htitle "reqd" (by decide), htitle "label" (by decide),
    hstatus "reqd" (by decide), hstatus "label" (by decide)⟩

end FormScaffold
