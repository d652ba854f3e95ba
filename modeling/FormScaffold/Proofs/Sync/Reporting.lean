import FormScaffold.Proofs.Region.Changed
import FormScaffold.Proofs.Sync.Editing

/-! # What is reported of a file that was merged

A file is reported as updated when its text is another one after the merge, with the regions that
the merge reports.

* **`IsMerged`** — what an artifact is merged into;
* `exists_isMerged` — a file that is reported as updated or unchanged was merged;
* **`status_of_isMerged`** — it is reported as updated exactly when a region is reported. -/

namespace FormScaffold.Sync

open Region

/-- An artifact is merged into the text of the file at its place. -/
structure IsMerged (t : FileTree) (o : Options) (a : Artifact) (old : String) (m : Merged) :
    Prop where
  /-- The text of the file that is there. -/
  found : ∃ loc bytes, destination t o a.path = .ok loc ∧
    existing t loc = .ok (some (.file bytes)) ∧ Text.ofUtf8? bytes = some old
  merged : merge old.toList a.content.toList (ownedRegions a) a.path o.strategy = .ok m

/-- No artifact owns a region twice, unless it says so. -/
theorem nodup_ownedRegions {a : Artifact} (h : a.owned.Nodup) : (ownedRegions a).Nodup := by
  unfold ownedRegions
  split
  · exact (sound_scan a.content.toList).nodup
  · exact h

section File

variable {t : FileTree} {o : Options} {a : Artifact} {r : MergeResult}

/-- What is reported of a file that is stored is what was to be reported. -/
theorem eq_of_storeAs {loc : Location} {text : String} {r' : MergeResult}
    (h : (storeAs t o loc text r').2 = .ok r) : r = r' := by
  unfold storeAs at h
  cases hs : store t o loc text with
  | mk t' stored =>
    rw [hs] at h
    cases stored with
    | error p => exact absurd h (by simp [Except.map])
    | ok u => exact (Except.ok.inj h).symm

/-- A file that is reported as updated or unchanged was merged, and the text tells which. -/
theorem exists_isMerged (h : (file t o a).2 = .ok r)
    (hr : r.status = .updated ∨ r.status = .unchanged) :
    ∃ old m, IsMerged t o a old m ∧ r =
      if m.text = old.toList then ⟨a.path, .unchanged, none, [], m.warnings⟩
      else ⟨a.path, .updated, none, m.changed, m.warnings⟩ := by
  unfold file at h
  cases hplace : destination t o a.path with
  | error p => exact absurd h (by simp [hplace])
  | ok loc =>
    cases hitem : existing t loc with
    | error p => exact absurd h (by simp [hplace, hitem])
    | ok item =>
      simp only [hplace, hitem] at h
      -- Only where a file with a text stands is anything merged.
      match item with
      | none =>
        obtain rfl := eq_of_storeAs h
        exact absurd hr (by simp)
      | some .directory => exact absurd h (by simp [fileAt])
      | some (.link target) => exact absurd h (by simp [fileAt])
      | some (.file bytes) =>
        rw [fileAt] at h
        cases hold : Text.ofUtf8? bytes with
        | none => exact absurd h (by simp [hold])
        | some old =>
          simp only [hold, mergeInto] at h
          cases hm : merge old.toList a.content.toList (ownedRegions a) a.path o.strategy with
          | error c =>
            rw [hm] at h
            obtain rfl := Except.ok.inj h
            exact absurd hr (by simp [MergeResult.ofConflict])
          | ok m =>
            rw [hm] at h
            refine ⟨old, m, ⟨⟨loc, bytes, hplace, hitem, hold⟩, hm⟩, ?_⟩
            simp only [beq_iff_eq] at h
            by_cases htext : m.text = old.toList
            · rw [if_pos htext] at h ⊢
              exact (Except.ok.inj h).symm
            · rw [if_neg htext] at h ⊢
              exact eq_of_storeAs h

/-- **A file is reported as updated exactly when a region is reported**, and the regions that are
reported are those that the merge reports. -/
theorem status_of_isMerged (hn : a.owned.Nodup) (h : (file t o a).2 = .ok r)
    (hr : r.status = .updated ∨ r.status = .unchanged) :
    ∃ old m, IsMerged t o a old m ∧ r.changed = m.changed ∧
      r.status = if m.changed = [] then .unchanged else .updated := by
  obtain ⟨old, m, hm, hreport⟩ := exists_isMerged h hr
  have hiff := text_eq_iff hm.merged (nodup_ownedRegions hn)
  refine ⟨old, m, hm, ?_⟩
  by_cases htext : m.text = old.toList
  · rw [if_pos htext] at hreport
    rw [hreport, if_pos (hiff.1 htext), hiff.1 htext]
    exact ⟨rfl, rfl⟩
  · rw [if_neg htext] at hreport
    rw [hreport, if_neg fun hnil => htext (hiff.2 hnil)]
    exact ⟨rfl, rfl⟩

end File

/-- **The reported change is the real change.** A merge leaves the text exactly when it reports no
region, however many regions it edits or cuts out at once. So the regions that are reported with a
file are those that the merge reports, and the file is reported as unchanged when there are none and
as updated when there are some. -/
theorem reports_changes {ownedNames : List String} (hn : ownedNames.Nodup) :
    (∀ (old fresh : List Char) (path : String) (strategy : Strategy) (m : Merged),
      merge old fresh ownedNames path strategy = .ok m → (m.text = old ↔ m.changed = [])) ∧
    ∀ (t : FileTree) (o : Options) (a : Artifact) (r : MergeResult), a.owned = ownedNames →
      (file t o a).2 = .ok r → r.status = .updated ∨ r.status = .unchanged →
      ∃ old m, IsMerged t o a old m ∧ r.changed = m.changed ∧
        r.status = if m.changed = [] then .unchanged else .updated := by
  refine ⟨fun old fresh path strategy m hm => text_eq_iff hm hn, ?_⟩
  rintro t o a r rfl h hr
  exact status_of_isMerged hn h hr

/-- Two regions, the second of which is empty. -/
def leaning : String := String.ofList (between "a".toList "x\n".toList ++ between "b".toList [])

/-- The routes of an entity, with two other regions, the first of which is empty. -/
def leaningBack : Artifact :=
  { noteRoutes with
    content := String.ofList (between "a".toList [] ++ between "b".toList "x\n".toList)
    owned := ["a", "b"] }

/-- The first region gets shorter by what the second gets longer. -/
theorem merge_leaning : ∃ m,
    merge leaning.toList leaningBack.content.toList ["a", "b"] leaningBack.path .respectManual =
        .ok m ∧
      m.changed = ["a", "b"] ∧ m.text.length = leaning.toList.length := by
  have hold : leaning.toList = between "a".toList "x\n".toList ++ between "b".toList [] :=
    String.toList_ofList
  have hfresh : leaningBack.content.toList =
      between "a".toList [] ++ between "b".toList "x\n".toList := String.toList_ofList
  rw [hold, hfresh]
  obtain ⟨m, hm, hchanged⟩ := exists_of_map_toOption
    (show (merge (between "a".toList "x\n".toList ++ between "b".toList [])
      (between "a".toList [] ++ between "b".toList "x\n".toList) ["a", "b"] leaningBack.path
      .respectManual).toOption.map (·.changed) = some ["a", "b"] by decide +kernel)
  refine ⟨m, hm, hchanged, ?_⟩
  rw [text_merged hm (by decide)]
  decide +kernel

/-- Two regions change, and the text is as long as before but not the same. A run that writes
nothing reports the file as updated, with both. -/
theorem reports_changes_leaning :
    (∃ m, merge leaning.toList leaningBack.content.toList ["a", "b"] leaningBack.path
        .respectManual = .ok m ∧
      m.text.length = leaning.toList.length ∧ m.text ≠ leaning.toList) ∧
    ∃ r old m, (file (routed leaning) (respecting [] (Path.ofText "/")).dry leaningBack).2 = .ok r ∧
      r.status = .updated ∧
      IsMerged (routed leaning) (respecting [] (Path.ofText "/")).dry leaningBack old m ∧
      m.changed = ["a", "b"] := by
  obtain ⟨htext, hreport⟩ := @reports_changes ["a", "b"] (by decide)
  obtain ⟨m, hm, hchanged, hlength⟩ := merge_leaning
  have hdiffers : m.text ≠ leaning.toList := by
    rw [Ne, htext _ _ _ _ _ hm, hchanged]
    simp
  refine ⟨⟨m, hm, hlength, hdiffers⟩, ?_⟩
  have hfile : (file (routed leaning) (respecting [] (Path.ofText "/")).dry leaningBack).2 =
      .ok ⟨leaningBack.path, .updated, none, m.changed, m.warnings⟩ := by
    obtain ⟨hplace, hold⟩ := destination_noteRoutes leaning
    have hplace' : destination (routed leaning) (respecting [] (Path.ofText "/")).dry
        leaningBack.path = .ok ["router", "note.js"] := hplace
    have howned : ownedRegions leaningBack = ["a", "b"] := rfl
    have hmerge : mergeReport .respectManual leaningBack leaning =
        ⟨leaningBack.path, .updated, none, m.changed, m.warnings⟩ := by
      rw [mergeReport, howned, hm]
      exact if_neg (by simpa using hdiffers)
    have hread : Text.ofUtf8? (Text.bytes leaning) = some leaning :=
      Text.ofUtf8?_bytes (Text.isPaired_of_notMem (View.Unmarked.ofList (by decide)))
    rw [file_of_seen hplace' hold, fileAt_dry, outcome_file, hread]
    exact congrArg Except.ok hmerge
  obtain ⟨old, m', hmerged, hsame, -⟩ := hreport _ _ _ _ rfl hfile (.inl rfl)
  exact ⟨_, old, m', hfile, rfl, hmerged, hsame.symm.trans hchanged⟩

end FormScaffold.Sync
