import FormScaffold.Proofs.Region.Refilling
import FormScaffold.Proofs.Sync.Turns

/-! # Files that stay in place

An artifact that was synced without a conflict is in its file, and stays there while the run goes
on, unless another path leads to the same file. Of artifacts with one path the first is synced, and
every other one with another text is a conflict.

* **`IsInPlace`** — the file of an artifact holds its regions;
* `isInPlace_of_file` — an artifact is in place once it was synced;
* `isInPlace_file`, **`isInPlace_runFrom`** — and stays so when others are synced;
* `status_of_seen`, `ofConflict_mem_of_seen` — what is reported of a path after its first artifact;
* **`run_isInPlace`** — what was reported is in place when the run ends. -/

namespace FormScaffold.Sync

open Region

/-- The file of an artifact is there, has a text, and holds the regions that the artifact owns. -/
def IsInPlace (t : FileTree) (o : Options) (a : Artifact) : Prop :=
  ∃ (loc : Location) (text : String), destination t o a.path = .ok loc ∧
    t.item? loc = some (.file (Text.bytes text)) ∧ Text.isPaired text = true ∧
    IsRefilled (ownedRegions a) a.content.toList text.toList

/-- The paths of two artifacts lead to one place. -/
def ShareFile (t : FileTree) (o : Options) (a b : Artifact) : Prop :=
  ∃ loc, destination t o a.path = .ok loc ∧ destination t o b.path = .ok loc

/-- Artifacts that put the same into a file. -/
def SameRegions (a b : Artifact) : Prop := a.content = b.content ∧ ownedRegions a = ownedRegions b

/-! ## Texts -/

/-- What an artifact makes of a text that it was merged into, when what it writes has bytes. -/
theorem isRefilled_refill {a : Artifact} (hn : (ownedRegions a).Nodup) {strategy : Strategy}
    {text : String} (htext : Text.isPaired text = true)
    (hwritten : (mergedText? strategy a text).all Text.isPaired = true)
    (h : IsRefilled (ownedRegions a) a.content.toList text.toList) :
    ∃ text' : String, refill strategy a (Text.bytes text) = Text.bytes text' ∧
      Text.isPaired text' = true ∧
      IsRefilled (ownedRegions a) a.content.toList text'.toList := by
  have hold := Text.ofUtf8?_bytes htext
  cases hm : merge text.toList a.content.toList (ownedRegions a) a.path strategy with
  | error c => exact ⟨text, refill_of_conflict hold hm, htext, h⟩
  | ok m =>
    refine ⟨String.ofList m.text, refill_of_merge hold hm,
      isPaired_of_written htext hwritten hm, ?_⟩
    rw [String.toList_ofList]
    exact isRefilled_of_merge hm hn

/-- What stands at the place of an artifact that was synced without a conflict. -/
theorem exists_item_of_outcome {a : Artifact} (hn : (ownedRegions a).Nodup) {strategy : Strategy}
    {x : Option Item} (hwritten : (written? strategy a x).all Text.isPaired = true)
    {r : MergeResult} (h : outcome strategy a x = .ok r) (hr : r.status ≠ .conflict)
    (loc : Location) :
    ∃ text : String, (renewal strategy a loc).item x = .file (Text.bytes text) ∧
      Text.isPaired text = true ∧
      IsRefilled (ownedRegions a) a.content.toList text.toList := by
  cases x with
  | none => exact ⟨a.content, rfl, hwritten, isRefilled_self _ _⟩
  | some item =>
    cases item with
    | directory => exact absurd h (by simp [outcome])
    | link target => exact absurd h (by simp [outcome])
    | file bytes =>
      rw [outcome_file] at h
      cases hold : Text.ofUtf8? bytes with
      | none =>
        rw [hold] at h
        exact absurd h (by simp)
      | some old =>
        rw [hold] at h
        rw [written?, hold, Option.bind_some] at hwritten
        -- The file has a text, and without a conflict the text of the merge is stored.
        obtain rfl := Except.ok.inj h
        cases hm : merge old.toList a.content.toList (ownedRegions a) a.path strategy with
        | error c =>
          rw [mergeReport_of_conflict hm] at hr
          exact absurd rfl hr
        | ok m =>
          refine ⟨String.ofList m.text, congrArg Item.file (refill_of_merge hold hm),
            isPaired_of_written (Text.isPaired_of_ofUtf8? hold) hwritten hm, ?_⟩
          rw [String.toList_ofList]
          exact isRefilled_of_merge hm hn

/-! ## One artifact -/

section Step

variable {t : FileTree} (h : Contents.IsSimple t.item?) {o : Options}
  (hcurrent : ∀ name ∈ o.current, IsName name) (hreal : o.dryRun = false) {a : Artifact}
  (hn : (ownedRegions a).Nodup)
include h hcurrent hreal hn

/-- **An artifact that was synced without a conflict is in place.** What was written has just been
written, and what was found unchanged is there as it is. -/
theorem isInPlace_of_file {r : MergeResult} (hfile : (file t o a).2 = .ok r)
    (hr : r.status ≠ .conflict) : IsInPlace (file t o a).1 o a := by
  obtain ⟨hsimple, -⟩ := file_keeps h hcurrent hreal (a := a)
  have hsame := destination_congr (o := o) h hsimple a.path
  cases hplace : destination t o a.path with
  | error p =>
    rw [file_of_error hplace] at hfile
    exact absurd hfile (by simp)
  | ok loc =>
    obtain ⟨hnames, hne⟩ := isName_of_destination h hcurrent hplace
    by_cases hp : IsOpen t o a.path
    · obtain ⟨-, t', hopen, ht'⟩ := file_of_isOpen h hplace hreal hne hp
      rw [hopen] at hfile hsame ⊢
      obtain ⟨hwritten, houtcome⟩ := (filed_cases o.strategy a (t.item? loc)).resolve_right
        fun ⟨_, _, _, hlost⟩ => absurd (hlost.symm.trans hfile) (by simp)
      obtain ⟨text, hitem, hpaired, htext⟩ :=
        exists_item_of_outcome hn hwritten (houtcome.symm.trans hfile) hr loc
      obtain ⟨loc', hplace', -, -, hfree⟩ := hp
      obtain rfl : loc = loc' := Except.ok.inj (hplace.symm.trans hplace')
      refine ⟨loc, text, hsame ▸ hplace, ?_, hpaired, htext⟩
      rw [ht', ← hitem]
      exact Renewal.apply_loc (r := renewal o.strategy a loc) hfree
    · -- On a way that is closed an artifact has no report at all.
      rcases file_of_isClosed h hplace hreal hnames hp with hs | ⟨-, t', hclosed, -⟩
      · obtain ⟨e, hstopped⟩ := file_of_isStopped h hs
        rw [hstopped] at hfile
        exact absurd hfile (by simp)
      · rw [hclosed] at hfile
        exact absurd hfile (by simp)

/-- **An artifact that is in place stays there when another one is synced**, unless that one goes to
the same file and puts something else there, or leaves it empty. -/
theorem isInPlace_file (hplace : IsInPlace t o a) {b : Artifact}
    (hb : ShareFile t o a b → SameRegions a b)
    (hencodable : (file t o b).2 ≠ .error .unencodable) : IsInPlace (file t o b).1 o a := by
  obtain ⟨loc, text, hloc, hitem, hpaired, htext⟩ := hplace
  obtain ⟨hsimple, -⟩ := file_keeps h hcurrent hreal (a := b)
  -- There are no links in either tree, so that paths lead to the same places.
  have hloc' : destination (file t o b).1 o a.path = .ok loc :=
    (destination_congr h hsimple a.path).symm.trans hloc
  by_cases hshare : destination t o b.path = .ok loc
  · obtain ⟨hcontent, howned⟩ := hb ⟨loc, hloc, hshare⟩
    obtain ⟨hnames, hne⟩ := isName_of_destination h hcurrent hshare
    by_cases hp : IsOpen t o b.path
    · -- The file is refilled with the same regions.
      obtain ⟨-, t', hfile, ht'⟩ := file_of_isOpen h hshare hreal hne hp
      rw [hfile, hitem] at hencodable
      obtain ⟨hwritten, -⟩ := (filed_cases o.strategy b _).resolve_right
        fun ⟨_, _, _, hlost⟩ => hencodable hlost
      rw [written?, Text.ofUtf8?_bytes hpaired, Option.bind_some] at hwritten
      rw [howned] at hn
      rw [hcontent, howned] at htext
      obtain ⟨text', hrefill, hpaired', htext'⟩ := isRefilled_refill hn hpaired hwritten htext
      have hstands : t.item? loc ≠ none := by
        rw [hitem]
        exact Option.some_ne_none _
      have hfree := h.not_isBlocked hstands
      refine ⟨loc, text', hloc', ?_, hpaired', by rwa [hcontent, howned]⟩
      rw [hfile, ht', ← hrefill]
      refine (Renewal.apply_loc (r := renewal o.strategy b loc) hfree).trans ?_
      show some ((renewal o.strategy b loc).item (t.item? loc)) = _
      rw [hitem]
      rfl
    · -- Where nothing is written, the file stays.
      refine ⟨loc, text, hloc', ?_, hpaired, htext⟩
      rcases file_of_isClosed h hshare hreal hnames hp with hs | ⟨-, t', hfile, hsame |
        ⟨above, name, rest, -, -, -, -, hfree, hnone, ht'⟩⟩
      · obtain ⟨e, hfile⟩ := file_of_isStopped h hs
        rw [hfile, hitem]
      · rw [hfile, hsame, hitem]
      · rw [hfile, ht']
        refine (Contents.paved_eq_file_iff (fun hblocked => hfree ?_) hnone loc _).2 hitem
        exact hblocked.mono (List.prefix_append _ _)
  · exact ⟨loc, text, hloc', (file_eq_file_iff h hcurrent hreal hshare _).2 hitem, hpaired, htext⟩

end Step

/-! ## Runs -/

/-- The paths of two artifacts lead to one place in every tree without links. -/
theorem ShareFile.congr {t t' : FileTree} (h : Contents.IsSimple t.item?)
    (h' : Contents.IsSimple t'.item?) {o : Options} {a b : Artifact} (hshare : ShareFile t' o a b) :
    ShareFile t o a b := by
  obtain ⟨loc, ha, hb⟩ := hshare
  exact ⟨loc, (destination_congr h h' a.path).trans ha, (destination_congr h h' b.path).trans hb⟩

/-! ### Paths that were seen -/

section Seen

variable {o : Options} {stopOnError : Bool} {path content : String}

/-- What was seen of a path stays when another one is new. -/
theorem lookup_cons_of_seen {seen : List (String × String)} {b : Artifact}
    (hnew : seen.lookup b.path = none) (hseen : seen.lookup path = some content) :
    ((b.path, b.content) :: seen).lookup path = some content := by
  have hne : path ≠ b.path := by
    rintro rfl
    rw [hnew] at hseen
    exact absurd hseen (by simp)
  rw [List.lookup_cons, beq_eq_false_iff_ne.2 hne]
  exact hseen

/-- Whatever is reported of a path that was seen is a conflict. -/
theorem status_of_seen {t : FileTree} {seen : List (String × String)}
    (hseen : seen.lookup path = some content) {as : List Artifact} {rs : List MergeResult}
    (hrs : (runFrom o stopOnError t seen as).results = .ok rs) :
    ∀ r ∈ rs, r.path = path → r.status = .conflict := by
  induction as generalizing t seen rs with
  | nil =>
    obtain rfl := Except.ok.inj hrs
    simp
  | cons b as ih =>
    intro r hr hpath
    rcases runFrom_cons_ok hrs with ⟨content', rs', -, -, hrs', rfl⟩ |
      ⟨r', rs', hnew, hsettle, -, hrs', rfl⟩
    · rcases List.mem_append.1 hr with hr | hr
      · rw [(mem_repeated.1 hr).2]
        rfl
      · exact ih hseen hrs' r hr hpath
    · rcases List.mem_cons.1 hr with rfl | hr
      · -- The path of an artifact that is synced was not seen.
        rw [← hpath, path_of_settle hsettle, hnew] at hseen
        exact absurd hseen (by simp)
      · exact ih (lookup_cons_of_seen hnew hseen) hrs' r hr hpath

/-- Every artifact that has another text for a path that was seen is reported as a conflict. -/
theorem ofConflict_mem_of_seen {t : FileTree} {seen : List (String × String)}
    (hseen : seen.lookup path = some content) {as : List Artifact} {rs : List MergeResult}
    (hrs : (runFrom o stopOnError t seen as).results = .ok rs) {b : Artifact} (hb : b ∈ as)
    (hpath : b.path = path) (hcontent : b.content ≠ content) :
    .ofConflict path duplicateReason ∈ rs := by
  induction as generalizing t seen rs with
  | nil => exact absurd hb (by simp)
  | cons c as ih =>
    rcases runFrom_cons_ok hrs with ⟨content', rs', hlookup, -, hrs', rfl⟩ |
      ⟨r, rs', hnew, -, -, hrs', rfl⟩
    · rcases List.mem_cons.1 hb with rfl | hb
      · rw [hpath, hseen] at hlookup
        obtain rfl := Option.some.inj hlookup
        exact List.mem_append_left _ (mem_repeated.2 ⟨hcontent.symm, by rw [hpath]⟩)
      · exact List.mem_append_right _ (ih hseen hrs' hb)
    · rcases List.mem_cons.1 hb with rfl | hb
      · rw [hpath, hseen] at hnew
        exact absurd hnew (by simp)
      · exact List.mem_cons_of_mem _ (ih (lookup_cons_of_seen hnew hseen) hrs' hb)

/-- What is reported is about the paths of the artifacts. -/
theorem path_of_mem_results {t : FileTree} {seen : List (String × String)} {as : List Artifact}
    {rs : List MergeResult} (hrs : (runFrom o stopOnError t seen as).results = .ok rs) :
    ∀ r ∈ rs, ∃ b ∈ as, b.path = r.path := by
  induction as generalizing t seen rs with
  | nil =>
    obtain rfl := Except.ok.inj hrs
    simp
  | cons b as ih =>
    intro r hr
    rcases runFrom_cons_ok hrs with ⟨content', rs', -, -, hrs', rfl⟩ |
      ⟨r', rs', -, hsettle, -, hrs', rfl⟩
    · rcases List.mem_append.1 hr with hr | hr
      · exact ⟨b, List.mem_cons_self, by rw [(mem_repeated.1 hr).2]; rfl⟩
      · obtain ⟨c, hc, hpath⟩ := ih hrs' r hr
        exact ⟨c, List.mem_cons_of_mem _ hc, hpath⟩
    · rcases List.mem_cons.1 hr with rfl | hr
      · exact ⟨b, List.mem_cons_self, (path_of_settle hsettle).symm⟩
      · obtain ⟨c, hc, hpath⟩ := ih hrs' r hr
        exact ⟨c, List.mem_cons_of_mem _ hc, hpath⟩

end Seen

section Run

variable {o : Options} (hcurrent : ∀ name ∈ o.current, IsName name) (hreal : o.dryRun = false)
  {a : Artifact} (hn : (ownedRegions a).Nodup) (stopOnError : Bool)
include hcurrent hreal

/-- A run makes no links, and leaves the top of the tree. -/
theorem isSimple_runFrom {t : FileTree} (h : Contents.IsSimple t.item?)
    {seen : List (String × String)} {as : List Artifact} {rs : List MergeResult}
    (hrs : (runFrom o stopOnError t seen as).results = .ok rs) :
    Contents.IsSimple (runFrom o stopOnError t seen as).tree.item? := by
  induction as generalizing t seen rs with
  | nil => exact h
  | cons b as ih =>
    rcases runFrom_cons_ok hrs with ⟨content, rs', -, htree, hrs', -⟩ |
      ⟨r, rs', -, -, htree, hrs', -⟩
    · rw [htree]
      exact ih h hrs'
    · rw [htree]
      exact ih (file_keeps h hcurrent hreal).1 hrs'

include hn

/-- **An artifact that is in place stays there while a run goes on.** The induction is on the
artifacts that are still to come. -/
theorem isInPlace_runFrom {t : FileTree} (h : Contents.IsSimple t.item?)
    {seen : List (String × String)} (hseen : seen.lookup a.path = some a.content)
    {as : List Artifact} (hshared : ∀ b ∈ as, b.path ≠ a.path → ShareFile t o a b → SameRegions a b)
    {rs : List MergeResult} (hrs : (runFrom o stopOnError t seen as).results = .ok rs)
    (hplace : IsInPlace t o a) : IsInPlace (runFrom o stopOnError t seen as).tree o a := by
  induction as generalizing t seen rs with
  | nil => exact hplace
  | cons b as ih =>
    obtain ⟨hb, hshared⟩ := List.forall_mem_cons.1 hshared
    rcases runFrom_cons_ok hrs with ⟨content, rs', -, htree, hrs', -⟩ |
      ⟨r, rs', hnew, hsettle, htree, hrs', -⟩
    · rw [htree]
      exact ih h hseen hshared hrs' hplace
    · -- The path of the artifact was seen, so that the next one has another.
      have hne : b.path ≠ a.path := by
        intro hpath
        rw [hpath, hseen] at hnew
        exact absurd hnew (by simp)
      have hencodable : (file t o b).2 ≠ .error .unencodable := by
        intro hlost
        rw [hlost] at hsettle
        exact absurd hsettle (by simp [settle])
      obtain ⟨hsimple, -⟩ := file_keeps h hcurrent hreal (a := b)
      rw [htree]
      exact ih hsimple (lookup_cons_of_seen hnew hseen)
        (fun c hc hpath hshare => hshared c hc hpath (hshare.congr h hsimple)) hrs'
        (isInPlace_file h hcurrent hreal hn hplace (hb hne) hencodable)

/-- What a run does to an artifact until it ends, whatever comes before. -/
theorem runFrom_isInPlace {t : FileTree} (h : Contents.IsSimple t.item?)
    {seen : List (String × String)} (hseen : seen.lookup a.path = none) {front back : List Artifact}
    (hfirst : ∀ b ∈ front, b.path ≠ a.path)
    (hshared : ∀ b ∈ back, b.path ≠ a.path → ShareFile t o a b → SameRegions a b)
    {rs : List MergeResult}
    (hrs : (runFrom o stopOnError t seen (front ++ a :: back)).results = .ok rs) :
    (∀ r ∈ rs, r.path = a.path → r.status ≠ .conflict →
        IsInPlace (runFrom o stopOnError t seen (front ++ a :: back)).tree o a) ∧
      ∀ b ∈ back, b.path = a.path → b.content ≠ a.content →
        .ofConflict a.path duplicateReason ∈ rs := by
  cases hfront : (runFrom o stopOnError t seen front).results with
  | error e =>
    rw [runFrom_append_of_error hfront, hfront] at hrs
    exact absurd hrs (by simp)
  | ok rs₁ =>
    have hsimple := isSimple_runFrom hcurrent hreal stopOnError h hfront
    have hnew : (remember seen front).lookup a.path = none :=
      lookup_remember_eq_none_iff.2 ⟨hseen, hfirst⟩
    have hothers : ∀ r ∈ rs₁, r.path ≠ a.path := by
      intro r hr hpath
      obtain ⟨b, hb, hbpath⟩ := path_of_mem_results hfront r hr
      exact hfirst b hb (hbpath.trans hpath)
    rw [runFrom_append hfront] at hrs ⊢
    obtain ⟨rs₂, hrs₂, rfl⟩ := map_eq_ok.1 hrs
    -- Now it is the turn of the artifact itself.
    rcases runFrom_cons_ok hrs₂ with ⟨content, -, hlookup, -⟩ |
      ⟨r, rs', -, hsettle, htree, hrs', rfl⟩
    · rw [hnew] at hlookup
      exact absurd hlookup (by simp)
    have hseen' : ((a.path, a.content) :: remember seen front).lookup a.path = some a.content := by
      rw [List.lookup_cons, beq_self_eq_true]
    obtain ⟨hsimple', -⟩ := file_keeps hsimple hcurrent hreal (a := a)
    refine ⟨fun r' hr' hpath hstatus => ?_, fun b hb hpath hcontent =>
      List.mem_append_right _ (List.mem_cons_of_mem _
        (ofConflict_mem_of_seen hseen' hrs' hb hpath hcontent))⟩
    -- Only its own report is of its path and no conflict.
    rcases List.mem_append.1 hr' with hr' | hr'
    · exact absurd hpath (hothers r' hr')
    rcases List.mem_cons.1 hr' with rfl | hr'
    · refine htree ▸ isInPlace_runFrom hcurrent hreal hn stopOnError hsimple' hseen' ?_ hrs' ?_
      · exact fun b hb hpath hshare => hshared b hb hpath (hshare.congr h hsimple')
      · exact isInPlace_of_file hsimple hcurrent hreal hn (eq_ok_of_settle hsettle hstatus) hstatus
    · exact absurd (status_of_seen hseen' hrs' r' hr' hpath) hstatus

end Run

/-- A file with one region. -/
def boxed (body : String) : Artifact := .ofContent "a.js" (wrap "x" body) []

end FormScaffold.Sync
