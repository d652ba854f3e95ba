import FormScaffold.Proofs.Sync.Rendered

/-! # Dry runs

A dry run leaves the tree as it is, and reports of every file what would become of it if it could be
written. Whether it can is never tried.

* `file_dry`, `tree_run_dry` — what a dry run does;
* `file_foreseen` — syncing an artifact, beside what a dry run has foreseen of it;
* **`foretells_runEach`** — the results of a run beside those of the dry run before it;
* **`dry_results_iff_isOpen`** — a dry run of rendered files foretells the run exactly when the
  files can all be written. -/

namespace FormScaffold.Sync

open View

/-! ## Syncing without writing -/

/-- Nothing but what is seen at its place decides what is foretold of an artifact. -/
theorem file_dry (t : FileTree) (o : Options) (a : Artifact) :
    file t o.dry a =
      match destination t o a.path with
      | .error p => (t, .error p)
      | .ok loc =>
        match existing t loc with
        | .error p => (t, .error p)
        | .ok x => (t, outcome o.strategy a x) := by
  have hplace : destination t o.dry a.path = destination t o a.path := rfl
  cases hdestination : destination t o a.path with
  | error p => exact file_of_error (hplace.trans hdestination)
  | ok loc =>
    simp only
    cases hseen : existing t loc with
    | error p => exact file_of_unseen (hplace.trans hdestination) hseen
    | ok x => rw [file_of_seen (hplace.trans hdestination) hseen, fileAt_dry]

/-- In a dry run syncing an artifact leaves the tree. -/
theorem tree_file_dry (t : FileTree) (o : Options) (a : Artifact) : (file t o.dry a).1 = t := by
  rw [file_dry]
  cases destination t o a.path with
  | error p => rfl
  | ok loc =>
    simp only
    cases existing t loc <;> rfl

/-- **A dry run leaves the tree as it is**, whatever is synced. Nothing is stored in any of its
steps. -/
theorem tree_run_dry (t : FileTree) (o : Options) (stopOnError : Bool) (as : List Artifact) :
    (run t o.dry stopOnError as).tree = t := by
  have hfrom : ∀ seen, (runFrom o.dry stopOnError t seen as).tree = t := by
    induction as with
    | nil => exact fun seen => rfl
    | cons a as ih =>
      intro seen
      cases hseen : seen.lookup a.path with
      | some content =>
        rw [runFrom_of_seen hseen]
        split
        · exact ih seen
        · exact ih seen
      | none =>
        rw [runFrom_of_new hseen, tree_file_dry]
        cases settle stopOnError a.path (file t o.dry a).2 with
        | ok r => exact ih _
        | error e => rfl
  exact hfrom []

/-! ## One artifact -/

/-- What a tree has become in a run, as far as it matters to artifacts that are still to come: their
places are as they were. -/
structure Foreseen (o : Options) (t t' : FileTree) (as : List Artifact) : Prop where
  isSimple : Contents.IsSimple t'.item?
  directory : ∀ l, t.item? l = some .directory → t'.item? l = some .directory
  sameAt : ∀ a ∈ as, Contents.SameAt t'.item? t.item? (place o a)

/-- Before the first artifact both runs are at the same tree. -/
theorem Foreseen.refl {t : FileTree} (h : Contents.IsSimple t.item?) (o : Options)
    (as : List Artifact) : Foreseen o t t as :=
  ⟨h, fun _ hl => hl, fun a _ => .refl _ (place o a)⟩

/-- The text that is written for an artifact, if any is, has bytes. -/
def IsEncodable (t : FileTree) (o : Options) (a : Artifact) : Prop :=
  (written? o.strategy a (t.item? (place o a))).all Text.isPaired = true

instance (t : FileTree) (o : Options) (a : Artifact) : Decidable (IsEncodable t o a) :=
  inferInstanceAs (Decidable (_ = _))

section Step

variable {t t' : FileTree} (h : Contents.IsSimple t.item?) {o : Options}
  (hcurrent : ∀ name ∈ o.current, IsName name)
include h hcurrent

/-- Whether a file can be written depends on its place alone. -/
theorem isOpen_congr (h' : Contents.IsSimple t'.item?) {a : Artifact} (ha : IsRelative a)
    (hsame : Contents.SameAt t'.item? t.item? (place o a)) :
    IsOpen t' o a.path ↔ IsOpen t o a.path := by
  have hplaces := destination_congr (o := o) h h' a.path
  constructor
  · rintro ⟨loc, hplace, hflaw, hnames, hfree⟩
    rw [← hplaces] at hplace
    obtain rfl := eq_of_destination h hcurrent ha hplace
    exact ⟨_, hplace, hflaw, hnames, fun hblocked => hfree (hsame.isBlocked.2 hblocked)⟩
  · rintro ⟨loc, hplace, hflaw, hnames, hfree⟩
    obtain rfl := eq_of_destination h hcurrent ha hplace
    exact ⟨_, hplaces ▸ hplace, hflaw, hnames, fun hblocked => hfree (hsame.isBlocked.1 hblocked)⟩

variable (hreal : o.dryRun = false)
include hreal

/-- **What becomes of an artifact was foreseen**, or its place is not open, or the text to be
written has no bytes. Of a place that is not open it was foreseen that the file would be created,
unless it cannot be looked at. -/
theorem file_foreseen {a : Artifact} (ha : IsRelative a) {as : List Artifact}
    (hforeseen : Foreseen o t t' (a :: as)) :
    (IsOpen t o a.path ∧ IsEncodable t o a ∧ (file t' o a).2 = (file t o.dry a).2) ∨
      (IsOpen t o a.path ∧ ¬IsEncodable t o a ∧ (file t' o a).2 = .error .unencodable) ∨
      ((∃ e, (file t o.dry a).2 = .error (.path e)) ∧ ∃ e, (file t' o a).2 = .error (.path e)) ∨
      ¬IsOpen t o a.path ∧
        (file t o.dry a).2 = .ok ⟨a.path, .created, none, ownedRegions a, []⟩ ∧
        ((file t' o a).2 = .error (.file .unwritable) ∨
          ∃ e, (file t' o a).2 = .error (.path e)) := by
  obtain ⟨h', hkept, hsame⟩ := hforeseen
  have hsame := hsame a List.mem_cons_self
  by_cases hs : IsStopped t o a.path
  · refine .inr (.inr (.inl ⟨?_, ?_⟩))
    · rcases existing_of_isStopped h hs with ⟨e, hplace⟩ | ⟨loc, e, hplace, hseen⟩
      · exact ⟨e, by rw [file_dry, hplace]⟩
      · exact ⟨e, by rw [file_dry, hplace]; simp only [hseen]⟩
    · obtain ⟨e, hfile⟩ := file_of_isStopped h' (hs.mono h h' hkept)
      exact ⟨e, by rw [hfile]⟩
  · obtain ⟨hplace, -⟩ := destination_of_not_isStopped h hcurrent ha hs
    have hplace' : destination t' o a.path = .ok (place o a) :=
      (destination_congr h h' a.path).symm.trans hplace
    obtain ⟨hnames, hne⟩ := isName_of_destination h hcurrent hplace
    -- The place is open in both trees or in none, since both have the same on its way.
    have hopen := isOpen_congr h hcurrent h' ha hsame
    by_cases hp : IsOpen t o a.path
    · obtain ⟨hseen, -⟩ := file_of_isOpen h hplace hreal hne hp
      obtain ⟨-, t'', hfile, -⟩ := file_of_isOpen h' hplace' hreal hne (hopen.2 hp)
      rw [hfile, file_dry, hplace]
      simp only [hseen, hsame.item]
      by_cases hencodable : IsEncodable t o a
      · exact .inl ⟨hp, hencodable, if_pos hencodable⟩
      · exact .inr (.inl ⟨hp, hencodable, if_neg hencodable⟩)
    · refine .inr (.inr (.inr ⟨hp, ?_, ?_⟩))
      · obtain ⟨hseen, -⟩ := (file_of_isClosed h hplace hreal hnames hp).resolve_left hs
        rw [file_dry, hplace]
        simp only [hseen]
        rfl
      · rcases file_of_isClosed h' hplace' hreal hnames (fun hp' => hp (hopen.1 hp')) with
          hs' | ⟨-, t'', hfile, -⟩
        · obtain ⟨e, hfile⟩ := file_of_isStopped h' hs'
          exact .inr ⟨e, by rw [hfile]⟩
        · exact .inl (by rw [hfile])

omit h in
/-- What comes later stays foreseen when an artifact is synced. -/
theorem Foreseen.file {a : Artifact} (ha : IsRelative a) {as : List Artifact}
    (hforeseen : Foreseen o t t' (a :: as))
    (hapart : ∀ r ∈ as.map (renewalOf o), (renewalOf o a).Apart r) :
    Foreseen o t (Sync.file t' o a).1 as := by
  obtain ⟨h', hkept, hsame⟩ := hforeseen
  obtain ⟨hsimple, hkept'⟩ := file_keeps h' hcurrent hreal (a := a)
  refine ⟨hsimple, fun l hl => hkept' l (hkept l hl), fun b hb => ?_⟩
  obtain ⟨hle, hge⟩ := hapart _ (List.mem_map_of_mem hb)
  have hstep : Contents.SameAt (Sync.file t' o a).1.item? t'.item? (place o b) := by
    refine file_sameAt h' hcurrent hreal fun loc hplace => ?_
    rw [eq_of_destination h' hcurrent ha hplace]
    exact ⟨hle, hge⟩
  exact hstep.trans (hsame b (List.mem_cons_of_mem a hb))

end Step

/-! ## Runs -/

open scoped Classical in
/-- What is reported of an artifact of which something was foretold: if its file cannot be written,
there is a conflict instead. -/
noncomputable def observed (t : FileTree) (o : Options) (a : Artifact) (r : MergeResult) :
    MergeResult :=
  if IsOpen t o a.path then r else .ofConflict a.path FileError.unwritable.message

/-- What is foretold of artifacts: those that cannot be written are to be created. -/
def Promises (t : FileTree) (o : Options) : List Artifact → List MergeResult → Prop :=
  List.Forall₂ fun a r => ¬IsOpen t o a.path → r.status = .created

/-- Just what was foretold is observed when all files can be written. -/
theorem zipWith_observed_iff {t : FileTree} {o : Options} {as : List Artifact}
    {rs : List MergeResult} (h : Promises t o as rs) :
    List.zipWith (observed t o) as rs = rs ↔ ∀ a ∈ as, IsOpen t o a.path := by
  induction h with
  | nil => simp
  | @cons a r as rs har _ ih =>
    rw [List.zipWith_cons_cons, List.cons.injEq, ih, List.forall_mem_cons]
    refine and_congr_left' ?_
    by_cases hp : IsOpen t o a.path
    · rw [observed, if_pos hp]
      exact iff_of_true rfl hp
    · rw [observed, if_neg hp]
      refine iff_of_false (fun heq => ?_) hp
      have hstatus := har hp
      rw [← heq] at hstatus
      exact absurd hstatus (by simp [MergeResult.ofConflict])

/-- How the results of a run are to those of a dry run. -/
inductive Foretells (t : FileTree) (o : Options) (as : List Artifact) :
    Except Failure (List MergeResult) → Except Failure (List MergeResult) → Prop
  /-- Both have stopped. -/
  | stopped (e e' : Failure) : Foretells t o as (.error e) (.error e')
  /-- The results are the same, but for files that cannot be opened. What was written has bytes. -/
  | observed {rs : List MergeResult} (h : Promises t o as rs)
    (hencodable : ∀ a ∈ as, IsOpen t o a.path → IsEncodable t o a) :
    Foretells t o as (.ok rs) (.ok (List.zipWith (observed t o) as rs))
  /-- The run has stopped because of a file that cannot be opened, or because of a text that has no
  bytes. -/
  | broken {rs : List MergeResult} (h : Promises t o as rs) (e : Failure) {a : Artifact}
    (ha : a ∈ as) (hlost : ¬(IsOpen t o a.path ∧ IsEncodable t o a)) :
    Foretells t o as (.ok rs) (.error e)

namespace Foretells

variable {t : FileTree} {o : Options} {as : List Artifact}

/-- One artifact more in front of both runs. -/
theorem cons {x y : Except Failure (List MergeResult)} (h : Foretells t o as x y) {a : Artifact}
    {r : MergeResult} (hr : ¬IsOpen t o a.path → r.status = .created)
    (hencodable : IsOpen t o a.path → IsEncodable t o a) :
    Foretells t o (a :: as) (x.map (r :: ·)) (y.map (Sync.observed t o a r :: ·)) := by
  cases h with
  | stopped e e' => exact .stopped e e'
  | observed h hothers =>
    exact .observed (.cons hr h) (List.forall_mem_cons.2 ⟨hencodable, hothers⟩)
  | broken h e ha hlost => exact .broken (.cons hr h) e (List.mem_cons_of_mem a ha) hlost

/-- The run stops at an artifact that cannot be written, and the dry run goes on. -/
theorem stop {x y : Except Failure (List MergeResult)} (h : Foretells t o as x y) {a : Artifact}
    {r : MergeResult} (hr : ¬IsOpen t o a.path → r.status = .created)
    (hlost : ¬(IsOpen t o a.path ∧ IsEncodable t o a)) (e : Failure) :
    Foretells t o (a :: as) (x.map (r :: ·)) (.error e) := by
  cases h with
  | stopped e' _ => exact .stopped e' e
  | observed h _ => exact .broken (.cons hr h) e List.mem_cons_self hlost
  | broken h _ _ _ => exact .broken (.cons hr h) e List.mem_cons_self hlost

/-- The results are the same exactly when all files can be written. -/
theorem eq_iff {rs : List MergeResult} {y : Except Failure (List MergeResult)}
    (h : Foretells t o as (.ok rs) y) :
    y = .ok rs ↔ ∀ a ∈ as, IsOpen t o a.path ∧ IsEncodable t o a := by
  cases h with
  | observed h hencodable =>
    rw [Except.ok.injEq, zipWith_observed_iff h]
    exact forall₂_congr fun a ha => (and_iff_left_of_imp (hencodable a ha)).symm
  | broken h e ha hlost => exact iff_of_false (by simp) fun hall => hlost (hall _ ha)

/-- A run stops where the dry run does. -/
theorem exists_error {e : Failure} {y : Except Failure (List MergeResult)}
    (h : Foretells t o as (.error e) y) : ∃ e', y = .error e' := by
  cases h with
  | stopped _ e' => exact ⟨e', rfl⟩

end Foretells

/-- **A run is as the dry run has foretold it**, but for files that cannot be written. The induction
is on the artifacts: the two runs are at trees in which the places of all artifacts to come are the
same. -/
theorem foretells_runEach {t : FileTree} (h : Contents.IsSimple t.item?) {o : Options}
    (hcurrent : ∀ name ∈ o.current, IsName name) (hreal : o.dryRun = false) (stopOnError : Bool)
    {as : List Artifact} (hrelative : ∀ a ∈ as, IsRelative a)
    (hapart : (as.map (renewalOf o)).Pairwise Renewal.Apart) {t' : FileTree}
    (hforeseen : Foreseen o t t' as) :
    Foretells t o as (runEach o.dry stopOnError t as).results
      (runEach o stopOnError t' as).results := by
  induction as generalizing t' with
  | nil => exact .observed .nil (List.forall_mem_nil _)
  | cons a as ih =>
    have ha := hrelative a List.mem_cons_self
    obtain ⟨hfirst, hapart⟩ := List.pairwise_cons.1 hapart
    have hrest := ih (fun b hb => hrelative b (List.mem_cons_of_mem a hb)) hapart
      (hforeseen.file hcurrent hreal ha hfirst)
    -- Both runs go on after the artifact.
    have hgo : ∀ r, settle stopOnError a.path (file t o.dry a).2 = .ok r →
        settle stopOnError a.path (file t' o a).2 = .ok (observed t o a r) →
        (¬IsOpen t o a.path → r.status = .created) → (IsOpen t o a.path → IsEncodable t o a) →
        Foretells t o (a :: as) (runEach o.dry stopOnError t (a :: as)).results
          (runEach o stopOnError t' (a :: as)).results := by
      intro r hdry hrun hstatus hencodable
      rw [runEach_of_ok hdry, tree_file_dry, runEach_of_ok hrun]
      exact hrest.cons hstatus hencodable
    rcases file_foreseen h hcurrent hreal ha hforeseen with ⟨hp, hencodable, hsame⟩ |
      ⟨hp, hencodable, hlost⟩ | ⟨⟨e, he⟩, e', he'⟩ | ⟨hp, hcreated, hfails | ⟨e, he⟩⟩
    · cases hsettle : settle stopOnError a.path (file t o.dry a).2 with
      | ok r =>
        refine hgo r hsettle ?_ (absurd hp) fun _ => hencodable
        rw [hsame, hsettle, observed, if_pos hp]
      | error e =>
        have hstops : settle stopOnError a.path (file t' o a).2 = .error e := by
          rw [hsame, hsettle]
        rw [runEach_of_error hsettle, runEach_of_error hstops]
        exact .stopped e e
    · -- The run stops at a text without bytes, whatever was foretold of it.
      have hstops : settle stopOnError a.path (file t' o a).2 = .error (.fault .unencodable) := by
        rw [hlost]
        rfl
      rw [runEach_of_error hstops]
      cases hsettle : settle stopOnError a.path (file t o.dry a).2 with
      | ok r =>
        rw [runEach_of_ok hsettle, tree_file_dry]
        exact hrest.stop (absurd hp) (fun hboth => hencodable hboth.2) _
      | error e =>
        rw [runEach_of_error hsettle]
        exact .stopped e _
    · rw [runEach_of_error (settle_of_path he _ _), runEach_of_error (settle_of_path he' _ _)]
      exact .stopped _ _
    · cases stopOnError with
      | false =>
        refine hgo _ (settle_of_ok hcreated _ _) ?_ (fun _ => rfl) (absurd · hp)
        rw [hfails, observed, if_neg hp]
        rfl
      | true =>
        have hstops : settle true a.path (file t' o a).2 =
            .error (.report (FileError.unwritable.report a.path)) := by
          rw [hfails]
          rfl
        rw [runEach_of_ok (settle_of_ok hcreated _ _), tree_file_dry, runEach_of_error hstops]
        exact hrest.stop (fun _ => rfl) (fun hboth => hp hboth.1) _
    · rw [runEach_of_ok (settle_of_ok hcreated _ _), tree_file_dry,
        runEach_of_error (settle_of_path he _ _)]
      exact hrest.stop (fun _ => rfl) (fun hboth => hp hboth.1) _

/-- A dry run over artifacts none of which is stopped gives results. -/
theorem exists_results_dry {t : FileTree} (h : Contents.IsSimple t.item?) {o : Options}
    (hcurrent : ∀ name ∈ o.current, IsName name) (hreal : o.dryRun = false) {as : List Artifact}
    (hrelative : ∀ a ∈ as, IsRelative a) (hs : ∀ a ∈ as, ¬IsStopped t o a.path) :
    ∃ rs, (runEach o.dry false t as).results = .ok rs := by
  induction as with
  | nil => exact ⟨[], rfl⟩
  | cons a as ih =>
    obtain ⟨ha, hrelative⟩ := List.forall_mem_cons.1 hrelative
    obtain ⟨hsa, hs⟩ := List.forall_mem_cons.1 hs
    obtain ⟨rs, hrs⟩ := ih hrelative hs
    obtain ⟨hplace, -⟩ := destination_of_not_isStopped h hcurrent ha hsa
    obtain ⟨hnames, hne⟩ := isName_of_destination h hcurrent hplace
    obtain ⟨x, hx⟩ : ∃ x, existing t (place o a) = .ok x := by
      by_cases hp : IsOpen t o a.path
      · exact ⟨_, (file_of_isOpen h hplace hreal hne hp).1⟩
      · exact ⟨_, ((file_of_isClosed h hplace hreal hnames hp).resolve_left hsa).1⟩
    -- A dry run reports what it would write, and what can be looked at has a report.
    have hfile : file t o.dry a = (t, outcome o.strategy a x) := by
      rw [file_dry, hplace]
      simp only [hx]
    refine ⟨freeReport o.strategy a x :: rs, ?_⟩
    have hsettle : settle false a.path (file t o.dry a).2 = .ok (freeReport o.strategy a x) := by
      rw [hfile]
      exact settle_outcome o.strategy a x
    rw [runEach_of_ok hsettle, tree_file_dry]
    simp only [Outcome.cons, hrs, Except.map]

/-! ## Renderings -/

/-- **When a dry run foretells the run.** A dry run of the files of a contract, or of contracts with
slugs of their own, leaves the tree. When it gives results, the run gives just these exactly when
all files can be written: their places are open, and what is to be written there has bytes. In any
results that the run gives, a conflict stands for each file whose place is not open, and for the
others what was foretold. When the dry run stops, so does the run. -/
theorem dry_results_iff_isOpen {files : List Artifact} (hfiles : IsRendered files) {t : FileTree}
    (ht : Contents.IsSimple t.item?) {o : Options} (hcurrent : ∀ name ∈ o.current, IsName name)
    (hreal : o.dryRun = false) (stopOnError : Bool) :
    (run t o.dry stopOnError files).tree = t ∧
      (∀ rs, (run t o.dry stopOnError files).results = .ok rs →
        ((run t o stopOnError files).results = .ok rs ↔
          ∀ a ∈ files, IsOpen t o a.path ∧ IsEncodable t o a) ∧
        ∀ rs', (run t o stopOnError files).results = .ok rs' →
          rs' = List.zipWith (observed t o) files rs) ∧
      ∀ e, (run t o.dry stopOnError files).results = .error e →
        ∃ e', (run t o stopOnError files).results = .error e' := by
  obtain ⟨language, spots, hspots⟩ := areSpots_of_isRendered hfiles
  have hapart := hspots.pairwise_apart o
  -- The files of a rendering are at places apart, so that no turn changes what the next one finds.
  have hforetells := foretells_runEach ht hcurrent hreal stopOnError hspots.isRelative hapart
    (Foreseen.refl ht o files)
  have hpaths := nodup_paths hapart
  rw [← run_eq_runEach hpaths, ← run_eq_runEach hpaths] at hforetells
  refine ⟨tree_run_dry t o stopOnError files, fun rs hrs => ?_, fun e he => ?_⟩
  · rw [hrs] at hforetells
    refine ⟨hforetells.eq_iff, fun rs' hrs' => ?_⟩
    rw [hrs'] at hforetells
    cases hforetells with
    | observed h _ => rfl
  · rw [he] at hforetells
    exact hforetells.exists_error

/-- A tree with a file where the directory of pages would be. -/
def pagedTree : FileTree := FileTree.empty.put ["pages"] (.file (Text.bytes "x\n"))

/-- The tree of the example is simple. -/
theorem isSimple_pagedTree : Contents.IsSimple pagedTree.item? := by
  rw [pagedTree, FileTree.item?_put_eq _ (by simp)]
  have hroot : FileTree.empty.item? [] = some .directory := rfl
  exact Contents.isSimple_empty.update hroot rfl (by simp)

/-- The pages of an entity cannot be written into it, and what a dry run foretells is not what
happens. -/
theorem dry_results_paged :
    ∃ c files rs, Contract.build markedSource "Note" (some "plain") = .ok c ∧
      render c "plain" "js" true = .ok files ∧
      (run pagedTree (respecting [] (Path.ofText "/")).dry false files).results = .ok rs ∧
      (run pagedTree (respecting [] (Path.ofText "/")) false files).results ≠ .ok rs := by
  obtain ⟨c, hc, heq⟩ := exists_of_map_toOption
    (show (Contract.build markedSource "Note" (some "plain")).toOption.map (fun c =>
      (c.entity, c.childTables.length)) = some ("Note", 0) by decide +kernel)
  obtain ⟨hentity, htables⟩ := Prod.mk.inj heq
  have hkeys := forall_keptNames_of_nil hc (List.length_eq_zero_iff.1 htables)
  have hfiles := render_eq_ok hkeys (resolvePreset_name .plain) (ofWord?_word .js)
    true
  have hsimple := isSimple_pagedTree
  have hcurrent : ∀ name ∈ (respecting [] (Path.ofText "/")).current, IsName name := by simp
  have hnames : Names.ofContract c .js =
      ⟨"Note", Naming.slug "Note", Naming.component "Note", .js⟩ := by
    rw [Names.ofContract, hentity]
  -- No name on the way to a file is too long.
  have hlength : (Names.ofContract c .js).slug.length ≤ 50 := by
    rw [hnames]
    decide
  have hpaths : List.Forall₂ (fun k a => a.path = k.path (.ofContract c .js)) (FileKind.all true)
      (sharedArtifacts .js ++ entityArtifacts c Preset.plain.layout .js) :=
    List.rel_append (path_sharedArtifacts (.ofContract c .js)) (path_entityArtifacts c _ .js)
  have hslug : FileKind.IsSlug (Names.ofContract c .js).slug := isSlug_slug c.entity
  obtain ⟨_, _, hspots⟩ := areSpots_of_isRendered (.one hfiles)
  obtain ⟨rs, hrs⟩ := exists_results_dry hsimple hcurrent rfl hspots.isRelative fun a ha => by
    obtain ⟨k, hk, hpath⟩ := exists_of_mem_forall₂ hpaths ha
    have hsteps := FileKind.isPathOf_path hslug k
    rw [← hpath] at hsteps
    have hbase : base (respecting [] (Path.ofText "/")) = [] := by decide
    obtain ⟨hshort, hflaw⟩ := @FileKind.fits_steps _ hslug (base (respecting [] (Path.ofText "/")))
      (by rw [hbase]; simp) (by rw [hbase]; simp) hlength k
    exact not_isStopped_of_hasNames hsimple hcurrent hsteps (by decide) hshort hflaw
  have hapart := hspots.pairwise_apart (respecting [] (Path.ofText "/"))
  rw [← run_eq_runEach (nodup_paths hapart)] at hrs
  refine ⟨c, _, rs, hc, hfiles, hrs, fun hrun => ?_⟩
  -- The list of records is behind the file.
  have hopen := ((dry_results_iff_isOpen (.one hfiles) hsimple hcurrent rfl false).2.1 rs hrs).1.1
    hrun (listPage (.ofContract c .js) c Preset.plain.layout) (by simp [entityArtifacts])
  obtain ⟨⟨loc, hplace, -, -, hfree⟩, -⟩ := hopen
  have hsteps := FileKind.isPathOf_path hslug .list
  obtain rfl := eq_of_destination hsimple hcurrent hsteps hplace
  have hway : ["pages"] <+: base (respecting [] (Path.ofText "/")) ++
      FileKind.list.steps (.ofContract c .js) ∧
      ["pages"] ≠ base (respecting [] (Path.ofText "/")) ++
        FileKind.list.steps (.ofContract c .js) := by
    rw [hnames]
    decide
  exact hfree ⟨["pages"], _, hway.1, hway.2, rfl⟩

end FormScaffold.Sync
