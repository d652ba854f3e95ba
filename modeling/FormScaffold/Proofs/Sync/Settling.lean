import FormScaffold.Proofs.Sync.Rendered
import FormScaffold.Proofs.View.Encoding

/-! # Syncing settles

Only the last sync counts. A tree into which the files of a contract were synced is as if no other
contract of the entity had been synced before, and syncing the files again changes nothing.

* `supersedes_of_isDocument` — a document leaves of a file what it would have left without an
  earlier document of its frame;
* `isSettled_reportOf` — the second report is "unchanged", or the conflict of the first;
* `repeats_of_isPassable` — so it is with a run over passable artifacts;
* `supersedes_of_render` — the files of two contracts of one entity have the same frames;
* **`settles_iff_isPassable`** — for the files of two contracts of one entity, this is so exactly
  when the places of the files can be looked at. -/

namespace FormScaffold.Sync

open Region View

/-- The file was not changed, or there is the conflict that there was before. -/
def IsSettled (before after : MergeResult) : Prop :=
  after.path = before.path ∧
    (after.status = .unchanged ∨ before.status = .conflict ∧ after = before)

/-- Artifacts that were synced are synced again: the tree stays as it is, and every file is reported
as unchanged or with the conflict that it had. -/
def Repeats (o : Options) (t : FileTree) (as : List Artifact) : Prop :=
  (run (run t o false as).tree o false as).tree.Agrees (run t o false as).tree ∧
    ∃ before after, (run t o false as).results = .ok before ∧
      (run (run t o false as).tree o false as).results = .ok after ∧
      after.map (·.path) = as.map (·.path) ∧ List.Forall₂ IsSettled before after

/-! ## Documents -/

section Document

variable {bs : List Block} (h : ∀ b ∈ bs, b.IsProper) (hnames : (documentNames bs).Nodup)
  {path : String} {a : Artifact} (ha : IsDocument bs path a)
include h hnames ha

/-- An artifact that is a document owns the regions of its bodies. -/
theorem ownedRegions_of_isDocument : ownedRegions a = documentNames bs := by
  unfold ownedRegions
  split
  · rw [ha.content]
    exact (scan_document h hnames).2.2
  · exact ha.owned

/-- A document whose text has bytes is written wherever its place allows it. -/
theorem isWritable_of_isDocument (hpaired : Text.isPaired a.content = true) : IsWritable a :=
  ⟨hpaired, by rwa [ownedRegions_of_isDocument h hnames ha]⟩

variable {bs' : List Block} (h' : ∀ b ∈ bs', b.IsProper)
  (hframe : bs.map Block.frame = bs'.map Block.frame) {path' : String} {a' : Artifact}
  (ha' : IsDocument bs' path' a')
include h' hframe ha'

/-- A document is merged into one of its frame, and leaves itself. -/
theorem merge_content :
    ∃ m, merge a.content.toList a'.content.toList (ownedRegions a') a'.path .respectManual =
      .ok m ∧ m.text = a'.content.toList := by
  have hsame := documentNames_congr hframe
  rw [ownedRegions_of_isDocument h' (hsame ▸ hnames) ha', ha.content, ha'.content]
  exact merge_document h h' hnames hframe _

/-- A document is merged into a text where one of its frame was merged, and leaves what it leaves
of the text itself. -/
theorem merge_merged {old : List Char} {m : Merged}
    (hm : merge old a.content.toList (ownedRegions a) a.path .respectManual = .ok m) :
    ∃ m₁ m₂, merge old a'.content.toList (ownedRegions a') a'.path .respectManual = .ok m₁ ∧
      merge m.text a'.content.toList (ownedRegions a') a'.path .respectManual = .ok m₂ ∧
      m₂.text = m₁.text := by
  have hsame := documentNames_congr hframe
  rw [ownedRegions_of_isDocument h hnames ha, ha.content] at hm
  rw [ownedRegions_of_isDocument h' (hsame ▸ hnames) ha', ha'.content]
  exact merge_merge h hnames h' hsame hm _

/-- **What a document leaves of a file does not depend on an earlier document of its frame**, as
long as the text of that one has bytes: a file that it was merged into has a text again. -/
theorem supersedes_of_isDocument (hpaired : Text.isPaired a.content = true) (loc : Location) :
    (renewal .respectManual a' loc).Supersedes (renewal .respectManual a loc) := by
  refine ⟨rfl, ?_, fun bytes => ?_⟩
  · show refill .respectManual a' (Text.bytes a.content) = Text.bytes a'.content
    obtain ⟨m, hm, htext⟩ := merge_content h hnames ha h' hframe ha'
    rw [refill_of_merge (Text.ofUtf8?_bytes hpaired) hm, htext, String.ofList_toList]
  · show refill .respectManual a' (refill .respectManual a bytes) = refill .respectManual a' bytes
    cases hold : Text.ofUtf8? bytes with
    | none => rw [refill_of_unreadable (a := a) hold]
    | some old =>
      cases hm : merge old.toList a.content.toList (ownedRegions a) a.path .respectManual with
      | error c => rw [refill_of_conflict hold hm]
      | ok m =>
        obtain ⟨m₁, m₂, hm₁, hm₂, htext⟩ := merge_merged h hnames ha h' hframe ha' hm
        have hmerged : (String.ofList m.text).toList = m.text := String.toList_ofList
        have htextPaired := (isWritable_of_isDocument h hnames ha hpaired).isPaired_merged hold hm
        rw [← hmerged] at hm₂
        rw [refill_of_merge hold hm, refill_of_merge hold hm₁,
          refill_of_merge (Text.ofUtf8?_bytes htextPaired) hm₂, htext]

end Document

/-- What is reported of an artifact is reported under its path. -/
theorem path_reportOf (o : Options) (f : Contents) (a : Artifact) :
    (reportOf o f a).path = a.path := by
  unfold reportOf report
  split
  · rfl
  · exact path_freeReport o.strategy a _

section Report

variable {bs : List Block} (h : ∀ b ∈ bs, b.IsProper) (hnames : (documentNames bs).Nodup)
  {path : String} {a : Artifact} (ha : IsDocument bs path a)
include h hnames ha

/-- A text that a document was merged into is found unchanged. -/
theorem status_of_merged {old : String} {m : Merged}
    (hm : merge old.toList a.content.toList (ownedRegions a) a.path .respectManual = .ok m) :
    (mergeReport .respectManual a (String.ofList m.text)).status = .unchanged := by
  obtain ⟨m₁, m₂, hm₁, hm₂, htext⟩ := merge_merged h hnames ha h rfl ha hm
  obtain rfl : m = m₁ := Except.ok.inj (hm.symm.trans hm₁)
  have hmerged : (String.ofList m.text).toList = m.text := String.toList_ofList
  rw [← hmerged] at hm₂ htext
  rw [mergeReport_of_same hm₂ htext]

/-- The text of a document is found unchanged. -/
theorem status_of_content : (mergeReport .respectManual a a.content).status = .unchanged := by
  obtain ⟨m, hm, htext⟩ := merge_content h hnames ha h rfl ha
  rw [mergeReport_of_same hm htext]

/-- **A file that was renewed is reported as unchanged, or with the conflict that it had.** What the
file was filled with is what it would be filled with again. -/
theorem isSettled_freeReport (hpaired : Text.isPaired a.content = true) (loc : Location)
    (x : Option Item) :
    IsSettled (freeReport .respectManual a x)
      (freeReport .respectManual a (some ((renewal .respectManual a loc).item x))) := by
  refine ⟨(path_freeReport _ a _).trans (path_freeReport _ a x).symm, ?_⟩
  cases x with
  | none =>
    refine .inl ?_
    show (freeReport .respectManual a (some (.file (Text.bytes a.content)))).status = .unchanged
    rw [freeReport_file, Text.ofUtf8?_bytes hpaired]
    exact status_of_content h hnames ha
  | some item =>
    cases item with
    | directory => exact .inr ⟨rfl, rfl⟩
    | link target => exact .inr ⟨rfl, rfl⟩
    | file bytes =>
      show (freeReport .respectManual a (some (.file (refill .respectManual a bytes)))).status =
        .unchanged ∨
          _ ∧ freeReport .respectManual a (some (.file (refill .respectManual a bytes))) = _
      cases hold : Text.ofUtf8? bytes with
      | none =>
        -- The conflict stays where the file does.
        rw [refill_of_unreadable hold]
        refine .inr ⟨?_, rfl⟩
        rw [freeReport_file, hold]
        rfl
      | some old =>
        cases hm : merge old.toList a.content.toList (ownedRegions a) a.path .respectManual with
        | error c =>
          rw [refill_of_conflict hold hm]
          refine .inr ⟨?_, rfl⟩
          rw [freeReport_file, hold]
          simp only [mergeReport_of_conflict hm]
          rfl
        | ok m =>
          have htextPaired :=
            (isWritable_of_isDocument h hnames ha hpaired).isPaired_merged hold hm
          rw [refill_of_merge hold hm, freeReport_file, Text.ofUtf8?_bytes htextPaired]
          exact .inl (status_of_merged h hnames ha hm)

end Report

/-- **The second report is "unchanged", or the conflict of the first.** A conflict leaves the file,
so that it comes again. -/
theorem isSettled_reportOf {bs : List Block} (h : ∀ b ∈ bs, b.IsProper)
    (hnames : (documentNames bs).Nodup) {path : String} {a : Artifact}
    (ha : IsDocument bs path a) (hpaired : Text.isPaired a.content = true) {o : Options}
    (ho : o.strategy = .respectManual) (f : Contents) :
    IsSettled (reportOf o f a) (reportOf o ((renewalOf o a).apply f) a) := by
  by_cases hblocked : f.IsBlocked (place o a)
  · rw [Renewal.apply_of_blocked hblocked]
    refine ⟨rfl, .inr ⟨?_, rfl⟩⟩
    rw [reportOf, report, if_pos hblocked]
    rfl
  · have hfree : ¬((renewalOf o a).apply f).IsBlocked (place o a) := fun hb =>
      hblocked ((Renewal.isBlocked_apply fun _ => rfl).1 hb)
    have hitem : (renewalOf o a).apply f (place o a) =
        some ((renewalOf o a).item (f (place o a))) := Renewal.apply_loc hblocked
    rw [reportOf, report, if_neg hblocked, reportOf, report, if_neg hfree, hitem, renewalOf, ho]
    exact isSettled_freeReport h hnames ha hpaired _ _

/-! ## Runs over documents -/

section Passable

variable {current : Location} {root : Path} (hcurrent : ∀ name ∈ current, IsName name)
  {t : FileTree} (h : Contents.IsSimple t.item?) {as : List Artifact}
  (hrelative : ∀ a ∈ as, IsRelative a)
  (hapart : (as.map (renewalOf (respecting current root))).Pairwise Renewal.Apart)
  (hp : ∀ a ∈ as, IsPassable t (respecting current root) a.path)
include hcurrent h hrelative hapart hp

/-- A run over passable artifacts renews their files, and reports what was found. -/
theorem run_of_isPassable (hwritable : ∀ a ∈ as, IsWritable a) :
    ∃ t' : FileTree, run t (respecting current root) false as =
        ⟨t', .ok (as.map (reportOf (respecting current root) t.item?))⟩ ∧
      t'.item? = Renewal.renew (as.map (renewalOf (respecting current root))) t.item? := by
  rw [run_eq_runEach (nodup_paths hapart)]
  exact runEach_of_isPassable hcurrent rfl h hrelative hapart hwritable hp

/-- After a run over passable artifacts the tree is simple, and these artifacts are passable. -/
theorem isPassable_run {t' : FileTree}
    (ht' : t'.item? = Renewal.renew (as.map (renewalOf (respecting current root))) t.item?) :
    Contents.IsSimple t'.item? ∧ ∀ a ∈ as, IsPassable t' (respecting current root) a.path := by
  have hsimple : Contents.IsSimple t'.item? := by
    rw [ht']
    refine Renewal.isSimple_renew h fun r hr => ?_
    obtain ⟨a, ha, rfl⟩ := List.mem_map.1 hr
    show base (respecting current root) ++ _ ≠ []
    simp [(hrelative a ha).ne_nil]
  refine ⟨hsimple, fun a ha => ?_⟩
  refine (isPassable_congr hcurrent h hsimple (hrelative a ha) fun l hl => ?_).2 (hp a ha)
  rw [ht']
  refine Renewal.isBlocked_renew (fun r hr hle => ?_) t.item?
  by_cases hsame : r = renewalOf (respecting current root) a
  · subst hsame
    exact hle.eq_of_length_le hl.length_le
  · have hmem : renewalOf (respecting current root) a ∈
        as.map (renewalOf (respecting current root)) := List.mem_map_of_mem ha
    have hr := hapart.forall hr hmem hsame
    exact absurd (hle.trans hl) hr.1

/-- **Syncing passable documents again changes nothing, and reports nothing new.** Each file is
found as the first run has left it. -/
theorem repeats_of_isPassable (hdocument : ∀ a ∈ as, ∃ (bs : List Block) (path : String),
      (∀ b ∈ bs, b.IsProper) ∧ (documentNames bs).Nodup ∧ IsDocument bs path a)
    (hpaired : ∀ a ∈ as, Text.isPaired a.content = true) :
    Repeats (respecting current root) t as := by
  have hwritable : ∀ a ∈ as, IsWritable a := by
    intro a ha
    obtain ⟨bs, path, hbs, hnames, hdoc⟩ := hdocument a ha
    exact isWritable_of_isDocument hbs hnames hdoc (hpaired a ha)
  obtain ⟨t₁, hrun₁, ht₁⟩ := run_of_isPassable hcurrent h hrelative hapart hp hwritable
  obtain ⟨h₁, hp₁⟩ := isPassable_run hcurrent h hrelative hapart hp ht₁
  obtain ⟨t₂, hrun₂, ht₂⟩ := run_of_isPassable hcurrent h₁ hrelative hapart hp₁ hwritable
  -- A document leaves of its own file what it left before.
  have hself : List.Forall₂ Renewal.Supersedes (as.map (renewalOf (respecting current root)))
      (as.map (renewalOf (respecting current root))) := by
    refine List.forall₂_same.2 fun r hr => ?_
    obtain ⟨a, ha, rfl⟩ := List.mem_map.1 hr
    obtain ⟨bs, path, hbs, hnames, hdoc⟩ := hdocument a ha
    exact supersedes_of_isDocument hbs hnames hdoc hbs rfl hdoc (hpaired a ha) _
  unfold Repeats
  rw [hrun₁]
  simp only
  rw [hrun₂]
  refine ⟨fun loc => ?_, _, _, rfl, rfl, ?_, ?_⟩
  · show t₂.item? loc = t₁.item? loc
    rw [ht₂, ht₁, Renewal.renew_renew hself hapart]
  · rw [List.map_map]
    exact List.map_congr_left fun a _ => path_reportOf _ _ a
  · rw [List.forall₂_map_left_iff, List.forall₂_map_right_iff, List.forall₂_same]
    intro a ha
    obtain ⟨bs, path, hbs, hnames, hdoc⟩ := hdocument a ha
    have hsame : reportOf (respecting current root) t₁.item? a =
        reportOf (respecting current root)
          ((renewalOf (respecting current root) a).apply t.item?) a := by
      refine reportOf_congr ?_
      rw [ht₁]
      exact Renewal.sameAt_renew_of_mem hapart (List.mem_map_of_mem ha) t.item?
    rw [hsame]
    exact isSettled_reportOf hbs hnames hdoc (hpaired a ha) rfl _

end Passable

/-- **Artifacts that settle are passable**: after a run over artifacts that are not all passable,
another run gives no results. -/
theorem isPassable_of_repeats {current : Location} {root : Path}
    (hcurrent : ∀ name ∈ current, IsName name) {t : FileTree} (h : Contents.IsSimple t.item?)
    {as : List Artifact} (hrelative : ∀ a ∈ as, IsRelative a)
    (hapart : (as.map (renewalOf (respecting current root))).Pairwise Renewal.Apart)
    (hwritable : ∀ a ∈ as, IsWritable a) (hrepeats : Repeats (respecting current root) t as) :
    ∀ a ∈ as, IsPassable t (respecting current root) a.path := by
  by_contra hp
  have hpaths := nodup_paths hapart
  obtain ⟨-, -, after, -, hafter, -⟩ := hrepeats
  obtain ⟨a, ha, hs⟩ := exists_isStopped hcurrent rfl h hrelative hapart hwritable hp
  obtain ⟨hsimple, -⟩ := runEach_keeps (o := respecting current root) hcurrent rfl false h as
  obtain ⟨e, he⟩ := results_of_isStopped hcurrent rfl false hsimple ha hs
  rw [run_eq_runEach hpaths, run_eq_runEach hpaths, he] at hafter
  exact absurd hafter (by simp)

/-! ## Contracts -/

/-- **The files of two contracts of one entity stand at the same places, kind by kind**, and what
those of the second leave of a file does not depend on those of the first. -/
theorem supersedes_of_render {source₁ source₂ : Source} {entity₁ entity₂ : String}
    {wanted₁ wanted₂ : Option String} {c₁ c₂ : Contract}
    (h₁ : Contract.build source₁ entity₁ wanted₁ = .ok c₁)
    (h₂ : Contract.build source₂ entity₂ wanted₂ = .ok c₂) (hentity : c₁.entity = c₂.entity)
    {style₁ style₂ word : String} {withShared : Bool} {files₁ files₂ : List Artifact}
    (hfiles₁ : render c₁ style₁ word withShared = .ok files₁)
    (hfiles₂ : render c₂ style₂ word withShared = .ok files₂)
    (hpaired₁ : ∀ a ∈ files₁, Text.isPaired a.content = true) (current : Location) (root : Path) :
    List.Forall₂ (fun b a => b.path = a.path ∧
      (renewalOf (respecting current root) b).Supersedes (renewalOf (respecting current root) a))
      files₂ files₁ := by
  obtain ⟨language, hword⟩ := ofWord?_of_render hfiles₂
  obtain ⟨layout₁, hdoc₁⟩ := isDocument_of_render h₁ hfiles₁ hword
  obtain ⟨layout₂, hdoc₂⟩ := isDocument_of_render h₂ hfiles₂ hword
  have hnames : Names.ofContract c₁ language = Names.ofContract c₂ language := by
    rw [Names.ofContract, Names.ofContract, hentity]
  have hboth := ((List.forall₂_and_left _ _).2 ⟨hpaired₁, hdoc₁.flip⟩).flip
  refine forall₂_of_forall₂ (fun k b a hb hboth => ?_) hdoc₂ hboth
  obtain ⟨hpaired, ha⟩ := hboth
  replace ha : IsDocument (k.blocks c₁ layout₁ language) _ a := ha
  have hpath : b.path = a.path := by rw [ha.path, hb.path, hnames]
  have hnodup : (documentNames (k.blocks c₁ layout₁ language)).Nodup := by
    rw [documentNames_blocks]
    exact nodup_regions k
  -- Contracts of one entity put different bodies into the same frame.
  have hframe := frame_blocks hentity layout₁ layout₂ language k
  refine ⟨hpath, ?_⟩
  rw [renewalOf, renewalOf, place, place, hpath]
  exact supersedes_of_isDocument (isProper_blocks (isNamed_of_build h₁) layout₁ language k) hnodup
    ha (isProper_blocks (isNamed_of_build h₂) layout₂ language k) hframe hb hpaired _

/-- Of two syncs one after the other only the second counts, and another one repeats it. -/
structure Settles (o : Options) (t : FileTree) (first second : List Artifact) : Prop where
  /-- The tree is that of the second sync alone. -/
  agrees : (run (run t o false first).tree o false second).tree.Agrees (run t o false second).tree
  repeats : Repeats o (run t o false first).tree second
  repeats_alone : Repeats o t second

/-- **Syncing settles, as far as the places of the files can be looked at.** The files of a contract
are synced after those of another contract of the same entity, all of them with texts that have
bytes. Then the tree is as if they were synced alone, and syncing them again changes nothing and
reports nothing but what was reported before; and this is so exactly when their places can be looked
at. -/
theorem settles_iff_isPassable {source₁ source₂ : Source} {entity₁ entity₂ : String}
    {wanted₁ wanted₂ : Option String} {c₁ c₂ : Contract}
    (h₁ : Contract.build source₁ entity₁ wanted₁ = .ok c₁)
    (h₂ : Contract.build source₂ entity₂ wanted₂ = .ok c₂) (hentity : c₁.entity = c₂.entity)
    {style₁ style₂ word : String} {withShared : Bool} {files₁ files₂ : List Artifact}
    (hfiles₁ : render c₁ style₁ word withShared = .ok files₁)
    (hfiles₂ : render c₂ style₂ word withShared = .ok files₂)
    (hpaired₁ : ∀ a ∈ files₁, Text.isPaired a.content = true)
    (hpaired₂ : ∀ a ∈ files₂, Text.isPaired a.content = true)
    {t : FileTree} (ht : Contents.IsSimple t.item?) {current : Location} {root : Path}
    (hcurrent : ∀ name ∈ current, IsName name) :
    Settles (respecting current root) t files₁ files₂ ↔
      ∀ a ∈ files₂, IsPassable t (respecting current root) a.path := by
  obtain ⟨_, _, hspots₁⟩ := areSpots_of_isRendered (.one hfiles₁)
  obtain ⟨_, _, hspots₂⟩ := areSpots_of_isRendered (.one hfiles₂)
  have hapart₁ := hspots₁.pairwise_apart (respecting current root)
  have hapart₂ := hspots₂.pairwise_apart (respecting current root)
  have hwritable₂ := hspots₂.isWritable hpaired₂
  have hboth := supersedes_of_render h₁ h₂ hentity hfiles₁ hfiles₂ hpaired₁ current root
  have hsupersedes := List.forall₂_map_left_iff.2 (List.forall₂_map_right_iff.2
    (hboth.imp fun b a hab => hab.2))
  have hdocument : ∀ a ∈ files₂, ∃ (bs : List Block) (path : String),
      (∀ b ∈ bs, b.IsProper) ∧ (documentNames bs).Nodup ∧ IsDocument bs path a := by
    intro a ha
    obtain ⟨k, bs, path, hproper, hkind, hdoc⟩ := exists_isDocument_of_mem h₂ hfiles₂ ha
    exact ⟨bs, path, hproper, hkind ▸ nodup_regions k, hdoc⟩
  constructor
  · intro hsettles
    exact isPassable_of_repeats hcurrent ht hspots₂.isRelative hapart₂ hwritable₂
      hsettles.repeats_alone
  · intro hp₂
    -- The paths are the same, so that the first files are passable too, and the second ones stay
    -- so.
    have hp₁ : ∀ a ∈ files₁, IsPassable t (respecting current root) a.path := by
      intro a ha
      obtain ⟨b, hb, hpath, -⟩ := exists_of_mem_forall₂ hboth ha
      exact hpath ▸ hp₂ b hb
    obtain ⟨t₁, hrun₁, ht₁⟩ := run_of_isPassable hcurrent ht hspots₁.isRelative hapart₁ hp₁
      (hspots₁.isWritable hpaired₁)
    obtain ⟨hsimple₁, hkept₁⟩ :=
      isPassable_run hcurrent ht hspots₁.isRelative hapart₁ hp₁ ht₁
    have hp₂₁ : ∀ b ∈ files₂, IsPassable t₁ (respecting current root) b.path := by
      intro b hb
      obtain ⟨a, ha, hpath, -⟩ := exists_of_mem_forall₂ hboth.flip hb
      exact hpath ▸ hkept₁ a ha
    obtain ⟨t₂, hrun₂, ht₂⟩ :=
      run_of_isPassable hcurrent ht hspots₂.isRelative hapart₂ hp₂ hwritable₂
    obtain ⟨t₁₂, hrun₁₂, ht₁₂⟩ :=
      run_of_isPassable hcurrent hsimple₁ hspots₂.isRelative hapart₂ hp₂₁ hwritable₂
    refine ⟨fun loc => ?_, ?_,
      repeats_of_isPassable hcurrent ht hspots₂.isRelative hapart₂ hp₂ hdocument hpaired₂⟩
    · rw [hrun₁, hrun₁₂, hrun₂, ht₁₂, ht₂, ht₁, Renewal.renew_renew hsupersedes hapart₁]
    · rw [hrun₁]
      exact repeats_of_isPassable hcurrent hsimple₁ hspots₂.isRelative hapart₂ hp₂₁ hdocument
        hpaired₂

/-- A source that knows one entity, which has one row. -/
def titledSource : Source :=
  .ofSchemas (.record [("Note", .record [
    ("fields", .list [.record [("fieldname", .text "title"), ("fieldtype", .text "Data")]])])])

/-- The files of two contracts of an entity settle in a tree that is empty. -/
theorem settles_marked :
    ∃ c₁ c₂ files₁ files₂, Contract.build markedSource "Note" (some "plain") = .ok c₁ ∧
      Contract.build titledSource "Note" (some "spacious") = .ok c₂ ∧
      render c₁ "dense" "ts" true = .ok files₁ ∧ render c₂ "plain" "ts" true = .ok files₂ ∧
      Settles (respecting [] (Path.ofText "out")) FileTree.empty files₁ files₂ := by
  obtain ⟨c₁, h₁, heq₁⟩ := exists_of_map_toOption
    (show (Contract.build markedSource "Note" (some "plain")).toOption.map (fun c =>
      (c.entity, c.childTables.length, decide (TakesUnmarked c Preset.dense.layout .ts))) =
        some ("Note", 0, true) by decide +kernel)
  obtain ⟨c₂, h₂, heq₂⟩ := exists_of_map_toOption
    (show (Contract.build titledSource "Note" (some "spacious")).toOption.map (fun c =>
      (c.entity, c.childTables.length, decide (TakesUnmarked c Preset.plain.layout .ts))) =
        some ("Note", 0, true) by decide +kernel)
  simp only [Prod.mk.injEq, decide_eq_true_eq] at heq₁ heq₂
  obtain ⟨hentity₁, htables₁, hdata₁⟩ := heq₁
  obtain ⟨hentity₂, htables₂, hdata₂⟩ := heq₂
  have hrender₁ := render_eq_ok (forall_keptNames_of_nil h₁ (List.length_eq_zero_iff.1 htables₁))
    (resolvePreset_name .dense) (ofWord?_word .ts) true
  have hrender₂ := render_eq_ok (forall_keptNames_of_nil h₂ (List.length_eq_zero_iff.1 htables₂))
    (resolvePreset_name .plain) (ofWord?_word .ts) true
  refine ⟨c₁, c₂, _, _, h₁, h₂, hrender₁, hrender₂, ?_⟩
  -- In an empty tree a place is passable when its names are short enough.
  refine (settles_iff_isPassable h₁ h₂ (hentity₁.trans hentity₂.symm) hrender₁ hrender₂
    (isPaired_of_render hrender₁ hdata₁) (isPaired_of_render hrender₂ hdata₂)
    Contents.isSimple_empty (by simp)).2 fun a ha => ?_
  obtain ⟨layout, hdoc⟩ := isDocument_of_render h₂ hrender₂ (ofWord?_word .ts)
  obtain ⟨k, hk, hpath⟩ := exists_of_mem_forall₂ hdoc ha
  have hnames : Names.ofContract c₂ .ts =
      ⟨"Note", Naming.slug "Note", Naming.component "Note", .ts⟩ := by
    rw [Names.ofContract, hentity₂]
  have hslug : FileKind.IsSlug (Names.ofContract c₂ .ts).slug := isSlug_slug c₂.entity
  have hlength : (Names.ofContract c₂ .ts).slug.length ≤ 50 := by
    rw [hnames]
    decide
  obtain ⟨hshort, hflaw⟩ := FileKind.fits_steps hslug isModest_base_out (by decide) hlength k
  have hsteps : IsPathOf (k.steps (Names.ofContract c₂ .ts)) a.path := by
    rw [hpath.path]
    exact FileKind.isPathOf_path hslug k
  exact isPassable_of_hasNames Contents.isSimple_empty (by simp) hsteps textFlaw?_out hshort hflaw

end FormScaffold.Sync
