import FormScaffold.Proofs.Files.Changing
import FormScaffold.Proofs.Region.Refilling
import FormScaffold.Proofs.Sync.Destination
import FormScaffold.Proofs.Sync.Renewal

/-! # Syncing one artifact

* `renewal` — what an artifact makes of the file at its place;
* `mergeInto_cases` — what merging an artifact into a text comes to, and `refill_of_unreadable`,
  `refill_of_conflict`, `refill_of_merge` — what it makes of the bytes;
* `outcome`, `filed`, `report` — what becomes of it, and what is reported, from what the tree holds;
* `existing_of_hasNames`, `existing_of_file`, `existing_of_long`, `existing_of_absent` — what is
  seen at a place;
* **`fileAt_of_free`** — syncing an artifact to a free place renews its file;
* `file_of_error`, `file_of_unseen`, `file_of_seen` — syncing an artifact as far as its place is
  known;
* `fileAt_dry` — what would become of it when nothing is written. -/

namespace FormScaffold.Sync

/-- Files are written, and regions that are not generated any more are left alone. -/
def respecting (current : Location) (root : Path) : Options :=
  ⟨current, root, .respectManual, false⟩

/-- The directory from which these options are read. -/
@[simp] theorem current_respecting (current : Location) (root : Path) :
    (respecting current root).current = current := rfl

/-- These options keep what was written by hand. -/
@[simp] theorem strategy_respecting (current : Location) (root : Path) :
    (respecting current root).strategy = .respectManual := rfl

/-- These options write for real. -/
@[simp] theorem dryRun_respecting (current : Location) (root : Path) :
    (respecting current root).dryRun = false := rfl

/-! ## What an artifact makes of a file -/

/-- The bytes of a file into which an artifact was merged. -/
def refill (strategy : Region.Strategy) (a : Artifact) (bytes : ByteArray) : ByteArray :=
  match Text.ofUtf8? bytes with
  | none => bytes
  | some old =>
    match Region.merge old.toList a.content.toList (ownedRegions a) a.path strategy with
    | .error _ => bytes
    | .ok m => Text.bytes (String.ofList m.text)

/-- The renewal of the file of an artifact. -/
def renewal (strategy : Region.Strategy) (a : Artifact) (loc : Location) : Renewal :=
  ⟨loc, Text.bytes a.content, refill strategy a⟩

/-- What is reported of an artifact that is merged into a text. -/
def mergeReport (strategy : Region.Strategy) (a : Artifact) (old : String) : MergeResult :=
  match Region.merge old.toList a.content.toList (ownedRegions a) a.path strategy with
  | .error c => .ofConflict a.path c.message
  | .ok m =>
    if m.text == old.toList then ⟨a.path, .unchanged, none, [], m.warnings⟩
    else ⟨a.path, .updated, none, m.changed, m.warnings⟩

/-- The text of a merge, when it is not that of the file: then it is written. -/
def mergedText? (strategy : Region.Strategy) (a : Artifact) (old : String) : Option String :=
  match Region.merge old.toList a.content.toList (ownedRegions a) a.path strategy with
  | .error _ => none
  | .ok m => if m.text == old.toList then none else some (String.ofList m.text)

/-- The text that is written for an artifact whose place is free: its own where nothing stands, or
that of a merge. -/
def written? (strategy : Region.Strategy) (a : Artifact) : Option Item → Option String
  | none => some a.content
  | some (.file bytes) => (Text.ofUtf8? bytes).bind (mergedText? strategy a)
  | some _ => none

/-! ### Merging -/

section Merge

variable {strategy : Region.Strategy} {a : Artifact} {bytes : ByteArray} {old : String}

/-- Bytes that are no text are left. -/
theorem refill_of_unreadable (h : Text.ofUtf8? bytes = none) : refill strategy a bytes = bytes := by
  unfold refill
  rw [h]

/-- A merge that is refused is reported as a conflict. -/
theorem mergeReport_of_conflict {c : Region.Conflict} (hm : Region.merge old.toList
      a.content.toList (ownedRegions a) a.path strategy = .error c) :
    mergeReport strategy a old = .ofConflict a.path c.message := by
  simp only [mergeReport, hm]

section Merged

variable {m : Region.Merged} (hm : Region.merge old.toList a.content.toList (ownedRegions a) a.path
  strategy = .ok m)
include hm

/-- A merge that leaves the text is reported as no change. -/
theorem mergeReport_of_same (htext : m.text = old.toList) :
    mergeReport strategy a old = ⟨a.path, .unchanged, none, [], m.warnings⟩ := by
  simp only [mergeReport, hm, htext, beq_self_eq_true, if_true]

/-- A merge that changes the text is reported as an update, with the regions that changed. -/
theorem mergeReport_of_changed (htext : m.text ≠ old.toList) :
    mergeReport strategy a old = ⟨a.path, .updated, none, m.changed, m.warnings⟩ := by
  simp only [mergeReport, hm, beq_eq_false_iff_ne.2 htext, Bool.false_eq_true, if_false]

end Merged

variable (hold : Text.ofUtf8? bytes = some old)
include hold

/-- A conflict leaves the bytes. -/
theorem refill_of_conflict {c : Region.Conflict} (hm : Region.merge old.toList a.content.toList
    (ownedRegions a) a.path strategy = .error c) : refill strategy a bytes = bytes := by
  unfold refill
  simp only [hold, hm]

/-- A merge leaves the bytes of its text. -/
theorem refill_of_merge {m : Region.Merged} (hm : Region.merge old.toList a.content.toList
      (ownedRegions a) a.path strategy = .ok m) :
    refill strategy a bytes = Text.bytes (String.ofList m.text) := by
  unfold refill
  simp only [hold, hm]

/-- **What merging an artifact into a text comes to**: nothing is written, and the bytes stay, or
the text of the merge is stored. -/
theorem mergeInto_cases (t : FileTree) {o : Options} (ho : o.strategy = strategy) (loc : Location) :
    mergeInto t o a loc old = (t, .ok (mergeReport strategy a old)) ∧
        refill strategy a bytes = bytes ∧ mergedText? strategy a old = none ∨
      ∃ text : String,
        mergeInto t o a loc old = storeAs t o loc text (mergeReport strategy a old) ∧
          refill strategy a bytes = Text.bytes text ∧ mergedText? strategy a old = some text := by
  unfold mergeInto mergedText?
  rw [ho]
  cases hm : Region.merge old.toList a.content.toList (ownedRegions a) a.path strategy with
  | error c => exact .inl ⟨by rw [mergeReport_of_conflict hm], refill_of_conflict hold hm, rfl⟩
  | ok m =>
    by_cases htext : m.text = old.toList
    · refine .inl ⟨?_, ?_, by simp only [htext, beq_self_eq_true, if_true]⟩
      · simp only [mergeReport_of_same hm htext, htext, beq_self_eq_true, if_true]
      · rw [refill_of_merge hold hm, htext, String.ofList_toList]
        exact Text.bytes_of_ofUtf8? hold
    · refine .inr ⟨String.ofList m.text, ?_, refill_of_merge hold hm, ?_⟩
      · simp only [mergeReport_of_changed hm htext, beq_eq_false_iff_ne.2 htext, Bool.false_eq_true,
          if_false]
      · simp only [beq_eq_false_iff_ne.2 htext, Bool.false_eq_true, if_false]

end Merge

/-- What becomes of an artifact whose place is free, as far as its text can be written. -/
def outcome (strategy : Region.Strategy) (a : Artifact) :
    Option Item → Except Problem MergeResult
  | none => .ok ⟨a.path, .created, none, ownedRegions a, []⟩
  | some (.file bytes) =>
    match Text.ofUtf8? bytes with
    | none => .error (.file .unreadable)
    | some old => .ok (mergeReport strategy a old)
  | some _ => .error (.file .notFile)

/-- What becomes of an artifact where a file stands depends on its bytes: unreadable ones are a
problem, and a text is merged, which ends the run when the merged text has no bytes. -/
theorem outcome_file (strategy : Region.Strategy) (a : Artifact) (bytes : ByteArray) :
    outcome strategy a (some (.file bytes)) =
      match Text.ofUtf8? bytes with
      | none => .error (.file .unreadable)
      | some old => .ok (mergeReport strategy a old) := by rfl

/-- What becomes of an artifact whose place is free when its file is written: a text that has no
bytes ends the sync. -/
def filed (strategy : Region.Strategy) (a : Artifact) (x : Option Item) :
    Except Problem MergeResult :=
  if (written? strategy a x).all Text.isPaired then outcome strategy a x else .error .unencodable

/-- What becomes of an artifact is what its place allows, and then all that is written has bytes; or
the sync ends at a text that has none. -/
theorem filed_cases (strategy : Region.Strategy) (a : Artifact) (x : Option Item) :
    ((written? strategy a x).all Text.isPaired = true ∧
        filed strategy a x = outcome strategy a x) ∨
      ∃ text, written? strategy a x = some text ∧ Text.isPaired text = false ∧
        filed strategy a x = .error .unencodable := by
  by_cases h : (written? strategy a x).all Text.isPaired = true
  · exact .inl ⟨h, if_pos h⟩
  · cases htext : written? strategy a x with
    | none => exact absurd (by rw [htext]; rfl) h
    | some text =>
      refine .inr ⟨text, rfl, ?_, if_neg h⟩
      rw [htext] at h
      simpa using h

/-- What is written at a place is what the artifact renews there; it is written where nothing
stands, or into a file. -/
theorem item_of_written {strategy : Region.Strategy} {a : Artifact} {x : Option Item}
    {text : String} (h : written? strategy a x = some text) (loc : Location) :
    (renewal strategy a loc).item x = .file (Text.bytes text) ∧
      (x = none ∨ ∃ bytes, x = some (.file bytes)) := by
  cases x with
  | none =>
    obtain rfl := Option.some.inj h
    exact ⟨rfl, .inl rfl⟩
  | some item =>
    cases item with
    | directory => exact absurd h (by simp [written?])
    | link target => exact absurd h (by simp [written?])
    | file bytes =>
      -- What a file is refilled with is the text of the merge, which is not written when it is the
      -- old one.
      refine ⟨congrArg Item.file ?_, .inr ⟨bytes, rfl⟩⟩
      obtain ⟨old, hold, hmerged⟩ := Option.bind_eq_some_iff.1 h
      unfold mergedText? at hmerged
      cases hm : Region.merge old.toList a.content.toList (ownedRegions a) a.path strategy with
      | error c =>
        rw [hm] at hmerged
        exact absurd hmerged (by simp)
      | ok m =>
        rw [hm] at hmerged
        dsimp only at hmerged
        split at hmerged
        · exact absurd hmerged (by simp)
        · obtain rfl := Option.some.inj hmerged
          exact refill_of_merge hold hm

/-- A merge that is written, or that leaves the text of the file, has bytes. -/
theorem isPaired_of_written {strategy : Region.Strategy} {a : Artifact} {old : String}
    (hold : Text.isPaired old = true)
    (h : (mergedText? strategy a old).all Text.isPaired = true) {m : Region.Merged}
    (hm : Region.merge old.toList a.content.toList (ownedRegions a) a.path strategy = .ok m) :
    Text.isPaired (String.ofList m.text) = true := by
  by_cases hsame : m.text = old.toList
  · rwa [hsame, String.ofList_toList]
  · have htext : mergedText? strategy a old = some (String.ofList m.text) := by
      simp only [mergedText?, hm, beq_eq_false_iff_ne.2 hsame, Bool.false_eq_true, if_false]
    rw [htext] at h
    exact h

/-- Whatever text is written for an artifact has bytes: its own has, and no region is named twice.
-/
structure IsWritable (a : Artifact) : Prop where
  paired : Text.isPaired a.content = true
  nodup : (ownedRegions a).Nodup

/-- It is enough that the regions that an artifact names are named once. When it names none, it owns
those that are found in its text, and these have names of their own. -/
theorem isWritable_of_nodup {a : Artifact} (hpaired : Text.isPaired a.content = true)
    (howned : a.owned.Nodup) : IsWritable a := by
  refine ⟨hpaired, ?_⟩
  unfold ownedRegions
  split
  · exact (Region.sound_scan a.content.toList).nodup
  · exact howned

/-- **A merge of such an artifact into the text of a file has bytes**: what the merge keeps comes
from the file, and what it puts in from the artifact. -/
theorem IsWritable.isPaired_merged {strategy : Region.Strategy} {a : Artifact}
    (h : IsWritable a) {bytes : ByteArray} {old : String}
    (hold : Text.ofUtf8? bytes = some old) {m : Region.Merged} (hm : Region.merge old.toList
      a.content.toList (ownedRegions a) a.path strategy = .ok m) :
    Text.isPaired (String.ofList m.text) = true := by
  rw [Text.isPaired_iff, String.toList_ofList]
  exact Region.isSpelled_merged hm h.nodup (Text.isPaired_iff.1 (Text.isPaired_of_ofUtf8? hold))
    (Text.isPaired_iff.1 h.paired)

/-- **What is written for such an artifact where a file stands has bytes**, because it is a merge.
-/
theorem IsWritable.isPaired_mergedText {strategy : Region.Strategy} {a : Artifact}
    (h : IsWritable a) {bytes : ByteArray} {old text : String}
    (hold : Text.ofUtf8? bytes = some old) (htext : mergedText? strategy a old = some text) :
    Text.isPaired text = true := by
  unfold mergedText? at htext
  cases hm : Region.merge old.toList a.content.toList (ownedRegions a) a.path strategy with
  | error c =>
    rw [hm] at htext
    exact absurd htext (by simp)
  | ok m =>
    rw [hm] at htext
    dsimp only at htext
    split at htext
    · exact absurd htext (by simp)
    · obtain rfl := Option.some.inj htext
      exact h.isPaired_merged hold hm

/-- **A writable artifact is written as far as its place allows.** Its text has bytes, and so has
whatever it is merged into. -/
theorem IsWritable.filed_eq {a : Artifact} (h : IsWritable a) (strategy : Region.Strategy)
    (x : Option Item) : filed strategy a x = outcome strategy a x := by
  refine if_pos ((Option.all_eq_true _ _).2 fun text htext => ?_)
  cases x with
  | none =>
    obtain rfl := Option.some.inj htext
    exact h.paired
  | some item =>
    cases item with
    | directory => exact absurd htext (by simp [written?])
    | link target => exact absurd htext (by simp [written?])
    | file bytes =>
      obtain ⟨old, hold, htext⟩ := Option.bind_eq_some_iff.1 htext
      exact h.isPaired_mergedText hold htext

/-- What is reported of an artifact whose place is free. -/
def freeReport (strategy : Region.Strategy) (a : Artifact) : Option Item → MergeResult
  | none => ⟨a.path, .created, none, ownedRegions a, []⟩
  | some (.file bytes) =>
    match Text.ofUtf8? bytes with
    | none => .ofConflict a.path FileError.unreadable.message
    | some old => mergeReport strategy a old
  | some _ => .ofConflict a.path FileError.notFile.message

/-- What is reported where a file stands depends on its bytes. -/
theorem freeReport_file (strategy : Region.Strategy) (a : Artifact) (bytes : ByteArray) :
    freeReport strategy a (some (.file bytes)) =
      match Text.ofUtf8? bytes with
      | none => .ofConflict a.path FileError.unreadable.message
      | some old => mergeReport strategy a old := by rfl

open scoped Classical in
/-- What is reported of an artifact. -/
noncomputable def report (strategy : Region.Strategy) (a : Artifact) (loc : Location)
    (f : Contents) : MergeResult :=
  if f.IsBlocked loc then .ofConflict a.path FileError.unwritable.message
  else freeReport strategy a (f loc)

/-- What the run makes of the outcome for one artifact: an error of the file is a conflict, unless
errors stop the run. -/
def settle (stopOnError : Bool) (path : String) :
    Except Problem MergeResult → Except Failure MergeResult
  | .ok r => .ok r
  | .error (.file e) =>
    if stopOnError then .error (.report (e.report path)) else .ok (.ofConflict path e.message)
  | .error (.path e) => .error (.fault (.path e))
  | .error .unencodable => .error (.fault .unencodable)

/-- What was synced is reported. -/
theorem settle_of_ok {x : Except Problem MergeResult} {r : MergeResult} (h : x = .ok r)
    (stopOnError : Bool) (path : String) : settle stopOnError path x = .ok r := by
  rw [h]
  rfl

/-- A path that cannot be followed ends the run. -/
theorem settle_of_path {x : Except Problem MergeResult} {e : PathError} (h : x = .error (.path e))
    (stopOnError : Bool) (path : String) :
    settle stopOnError path x = .error (.fault (.path e)) := by
  rw [h]
  rfl

/-- Settled, what becomes of an artifact is what is reported of it. -/
theorem settle_outcome (strategy : Region.Strategy) (a : Artifact) (x : Option Item) :
    settle false a.path (outcome strategy a x) = .ok (freeReport strategy a x) := by
  cases x with
  | none => rfl
  | some item =>
    cases item with
    | directory => rfl
    | link target => rfl
    | file bytes =>
      rw [outcome_file, freeReport_file]
      cases Text.ofUtf8? bytes <;> rfl

/-- What is no conflict was reported by syncing the artifact. -/
theorem eq_ok_of_settle {stopOnError : Bool} {path : String} {x : Except Problem MergeResult}
    {r : MergeResult} (h : settle stopOnError path x = .ok r) (hr : r.status ≠ .conflict) :
    x = .ok r := by
  cases x with
  | ok r' =>
    obtain rfl := Except.ok.inj h
    rfl
  | error p =>
    cases p with
    | path e => exact absurd h (by simp [settle])
    | unencodable => exact absurd h (by simp [settle])
    | file e =>
      cases stopOnError with
      | true => exact absurd h (by simp [settle])
      | false =>
        obtain rfl := Except.ok.inj h
        exact absurd rfl hr

/-! ### Paths -/

/-- The report of a merge is about the path of the artifact. -/
theorem path_mergeReport (strategy : Region.Strategy) (a : Artifact) (old : String) :
    (mergeReport strategy a old).path = a.path := by
  cases hm : Region.merge old.toList a.content.toList (ownedRegions a) a.path strategy with
  | error c =>
    rw [mergeReport_of_conflict hm]
    rfl
  | ok m =>
    by_cases htext : m.text = old.toList
    · rw [mergeReport_of_same hm htext]
    · rw [mergeReport_of_changed hm htext]

/-- The report of an artifact is about its path. -/
theorem path_freeReport (strategy : Region.Strategy) (a : Artifact) (x : Option Item) :
    (freeReport strategy a x).path = a.path := by
  cases x with
  | none => rfl
  | some item =>
    cases item with
    | directory => rfl
    | link target => rfl
    | file bytes =>
      rw [freeReport_file]
      cases Text.ofUtf8? bytes with
      | none => rfl
      | some old => exact path_mergeReport strategy a old

/-- What is reported in the end is about the path of the artifact. -/
theorem path_of_settle_outcome {strategy : Region.Strategy} {a : Artifact} {x : Option Item}
    {stopOnError : Bool} {r : MergeResult}
    (h : settle stopOnError a.path (outcome strategy a x) = .ok r) : r.path = a.path := by
  have hfree := settle_outcome strategy a x
  have hreport : r = freeReport strategy a x := by
    cases houtcome : outcome strategy a x with
    | ok r' =>
      rw [houtcome] at h hfree
      exact (Except.ok.inj h).symm.trans (Except.ok.inj hfree)
    | error p =>
      rw [houtcome] at h hfree
      cases p with
      | path e => exact absurd h (by simp [settle])
      | unencodable => exact absurd h (by simp [settle])
      | file e =>
        cases stopOnError with
        | true => exact absurd h (by simp [settle])
        | false => exact (Except.ok.inj h).symm.trans (Except.ok.inj hfree)
  rw [hreport]
  exact path_freeReport strategy a x

/-! ## Looking at a place -/

/-- Nothing is seen where a path does not lead. -/
theorem existing_of_lost {t : FileTree} {loc : Location}
    (h : t.place [] (pathOf loc) = .error .missing ∨
      t.place [] (pathOf loc) = .error .notDirectory ∨
      ∃ l, t.place [] (pathOf loc) = .ok (.vacant l)) : existing t loc = .ok none := by
  unfold existing FileTree.find
  rcases h with hplace | hplace | ⟨l, hplace⟩
  · rw [hplace]
    rfl
  · rw [hplace]
    rfl
  · rw [hplace]
    rfl

/-- A path that is too long is a problem. -/
theorem existing_of_long_path {t : FileTree} {loc : Location}
    (h : t.place [] (pathOf loc) = .error .nameTooLong) :
    existing t loc = .error (.path .nameTooLong) := by
  unfold existing FileTree.find
  rw [h]
  rfl

section Existing

variable {t : FileTree} (h : Contents.IsSimple t.item?)
include h

/-- What stands at a place is seen when its names are short enough. -/
theorem existing_of_hasNames {loc : Location} (hloc : FileTree.HasNames loc)
    (hflaw : (pathOf loc).flaw? = none) : existing t loc = .ok (t.item? loc) := by
  cases hitem : t.item? loc with
  | some item =>
    have hplace := FileTree.place_taken h hloc (by rw [hitem]; exact Option.some_ne_none _) hflaw
    have hfind : t.find [] (pathOf loc) = .ok (loc, item) := by
      simp only [FileTree.find, pathOf, hplace, bind, Except.bind, hitem, pure, Except.pure]
    unfold existing
    rw [hfind]
  | none =>
    have hplace : t.place [] (pathOf loc) = t.walk maxLinks [] (loc ++ []) := by
      rw [List.append_nil]
      exact FileTree.place_of_flaw?_eq_none hflaw t
    have hnone : t.item? ([] ++ loc) = none := hitem
    refine existing_of_lost ?_
    rw [hplace]
    exact @FileTree.walk_absent _ h [] _ hloc h.root hnone maxLinks []

/-- Nothing is seen behind a file. -/
theorem existing_of_file {above : Location} {name : String} {rest : Location} {bytes : ByteArray}
    (habove : FileTree.HasNames above) (hfile : t.item? above = some (.file bytes))
    (hflaw : (pathOf (above ++ name :: rest)).flaw? = none) :
    existing t (above ++ name :: rest) = .ok none := by
  have hplace : t.place [] (pathOf (above ++ name :: rest)) = .error .notDirectory := by
    rw [pathOf, FileTree.place_append h habove (by rw [hfile]; exact Option.some_ne_none _) hflaw]
    exact FileTree.walk_of_not_directory (by rw [hfile]; simp) _ _ _
  exact existing_of_lost (.inr (.inl hplace))

/-- A name that is too long stops when a directory leads to it. -/
theorem existing_of_long {above : Location} {name : String} {rest : Location}
    (habove : FileTree.HasNames above) (hdirectory : t.item? above = some .directory)
    (hname : IsName name) (hlong : ¬IsShort name)
    (hflaw : (pathOf (above ++ name :: rest)).flaw? = none) :
    existing t (above ++ name :: rest) = .error (.path .nameTooLong) := by
  have hplace : t.place [] (pathOf (above ++ name :: rest)) = .error .nameTooLong := by
    rw [pathOf, FileTree.place_append h habove
      (FileTree.item?_ne_none_of_directory hdirectory) hflaw]
    exact FileTree.walk_long hdirectory hname hlong _ _
  exact existing_of_long_path hplace

/-- Nothing is seen where no directory leads. -/
theorem existing_of_absent {above : Location} (habove : FileTree.HasNames above)
    (hnone : t.item? above = none) {rest : Location}
    (hflaw : (pathOf (above ++ rest)).flaw? = none) : existing t (above ++ rest) = .ok none := by
  have hplace : t.place [] (pathOf (above ++ rest)) = t.walk maxLinks [] (above ++ rest) :=
    FileTree.place_of_flaw?_eq_none hflaw t
  refine existing_of_lost ?_
  rw [hplace]
  exact @FileTree.walk_absent _ h [] _ habove h.root hnone maxLinks rest

end Existing

/-! ## Storing -/

/-- What storing a text comes to: the bytes are put at the place, which may fail, and afterwards it
is seen whether the text has any. -/
theorem storeAs_of_attempt {t t' : FileTree} {loc : Location} {text : String}
    {error? : Option PathError}
    (h : t.attemptFile [] (pathOf loc) (Text.bytes text) = ⟨t', error?⟩) {o : Options}
    (hreal : o.dryRun = false) (r : MergeResult) :
    storeAs t o loc text r =
      (t', if error?.isSome then .error (.file .unwritable)
        else if Text.isPaired text then .ok r else .error .unencodable) := by
  simp only [storeAs, store, hreal, Bool.false_eq_true, if_false, h]
  cases error? with
  | some e => rfl
  | none => cases Text.isPaired text <;> rfl

/-- A renewal paves the way to a file and puts the file there. -/
theorem Renewal.apply_concat {r : Renewal} {f : Contents} {parent : Location} {name : String}
    (hloc : r.loc = parent ++ [name]) (hfree : ¬f.IsBlocked r.loc) :
    r.apply f =
      Function.update (f.paved parent) (parent ++ [name])
        (some (r.item (f (parent ++ [name])))) := by
  rw [Renewal.apply_of_free hfree, hloc]
  funext l
  by_cases hl : l = parent ++ [name]
  · rw [hl, Function.update_self, Function.update_self]
  · rw [Function.update_of_ne hl, Function.update_of_ne hl]
    have hiff : l <+: parent ++ [name] ↔ l <+: parent := by
      rw [List.prefix_concat_iff]
      exact or_iff_right hl
    by_cases hp : l <+: parent
    · rw [Contents.paved_onWay f hp, Contents.paved_onWay f (hiff.2 hp)]
    · rw [Contents.paved_offWay f hp, Contents.paved_offWay f fun h => hp (hiff.1 h)]

section Free

variable {t : FileTree} (h : Contents.IsSimple t.item?) {a : Artifact} {loc : Location}
  (hloc : FileTree.HasNames loc) (hne : loc ≠ []) (hflaw : (pathOf loc).flaw? = none)
  (hfree : ¬Contents.IsBlocked t.item? loc) {o : Options} (hreal : o.dryRun = false)
include h hloc hne hflaw hfree hreal

/-- A file is stored at a free place. -/
theorem storeAs_of_free {text : String} (hitem : t.item? loc ≠ some .directory)
    (htext : (renewal o.strategy a loc).item (t.item? loc) = .file (Text.bytes text))
    (r : MergeResult) :
    ∃ t' : FileTree, storeAs t o loc text r =
        (t', if Text.isPaired text then .ok r else .error .unencodable) ∧
      t'.item? = (renewal o.strategy a loc).apply t.item? := by
  rcases List.eq_nil_or_concat loc with hnil | ⟨parent, name, hconcat⟩
  · exact absurd hnil hne
  · rw [List.concat_eq_append] at hconcat
    obtain ⟨t', hattempt, ht'⟩ := FileTree.attemptFile_of_free h (hconcat ▸ hloc)
      (hconcat ▸ hfree) (hconcat ▸ hitem) (hconcat ▸ hflaw) (Text.bytes text)
    rw [← hconcat] at hattempt
    refine ⟨t', storeAs_of_attempt hattempt hreal r, ?_⟩
    rw [ht', Renewal.apply_concat (r := renewal o.strategy a loc) hconcat hfree, ← hconcat, htext]

/-- An artifact is merged into a text at its place. -/
theorem mergeInto_of_free {bytes : ByteArray} {old : String}
    (hitem : t.item? loc = some (.file bytes)) (hold : Text.ofUtf8? bytes = some old) :
    ∃ t' : FileTree, mergeInto t o a loc old = (t', filed o.strategy a (some (.file bytes))) ∧
      t'.item? = (renewal o.strategy a loc).apply t.item? := by
  have hrefilled : (renewal o.strategy a loc).item (t.item? loc) =
      .file (refill o.strategy a bytes) := by
    rw [hitem]
    rfl
  have houtcome : outcome o.strategy a (some (.file bytes)) =
      .ok (mergeReport o.strategy a old) := by rw [outcome_file, hold]
  rw [filed, houtcome, written?, hold, Option.bind_some]
  rcases mergeInto_cases (a := a) hold t (o := o) rfl loc with ⟨hinto, hbytes, hnone⟩ |
    ⟨text, hinto, hbytes, hsome⟩
  · -- Where the bytes stay, nothing is renewed.
    refine ⟨t, ?_, (Renewal.apply_eq_self h ?_).symm⟩
    · rw [hinto, hnone]
      rfl
    · show t.item? loc = some ((renewal o.strategy a loc).item (t.item? loc))
      rw [hrefilled, hbytes, hitem]
  · rw [hinto, hsome]
    exact storeAs_of_free h hloc hne hflaw hfree hreal (by rw [hitem]; simp) (hbytes ▸ hrefilled) _

/-- **An artifact is synced to a free place.** Its file is put there, or filled anew, or stays as it
was, and the report says which. -/
theorem fileAt_of_free :
    ∃ t' : FileTree,
      fileAt t o a loc (t.item? loc) = (t', filed o.strategy a (t.item? loc)) ∧
        t'.item? = (renewal o.strategy a loc).apply t.item? := by
  cases hitem : t.item? loc with
  | none =>
    have htext : (renewal o.strategy a loc).item (t.item? loc) = .file (Text.bytes a.content) := by
      rw [hitem]
      rfl
    obtain ⟨t', hstore, ht'⟩ := storeAs_of_free h hloc hne hflaw hfree hreal
      (by rw [hitem]; simp) htext ⟨a.path, .created, none, ownedRegions a, []⟩
    exact ⟨t', hstore, ht'⟩
  | some item =>
    cases item with
    | directory =>
      -- A directory is left as it is, and so is a file that holds no text.
      refine ⟨t, rfl, (Renewal.apply_eq_self h ?_).symm⟩
      show t.item? loc = some ((renewal o.strategy a loc).item (t.item? loc))
      rw [hitem]
      rfl
    | link target => exact absurd hitem (h.linkless loc target)
    | file bytes =>
      cases hold : Text.ofUtf8? bytes with
      | none =>
        refine ⟨t, ?_, (Renewal.apply_eq_self h ?_).symm⟩
        · rw [fileAt_file, filed, written?, outcome_file, hold]
          rfl
        · show t.item? loc = some ((renewal o.strategy a loc).item (t.item? loc))
          rw [hitem]
          exact congrArg (some ∘ Item.file) (refill_of_unreadable hold).symm
      | some old =>
        obtain ⟨t', hmerge, ht'⟩ := mergeInto_of_free h hloc hne hflaw hfree hreal
          (a := a) hitem hold
        refine ⟨t', ?_, ht'⟩
        rw [fileAt_file, hold]
        exact hmerge

end Free

/-! ## Any place -/

section File

variable {t : FileTree} {o : Options} {a : Artifact}

/-- An artifact without a place has the problem of its place and leaves the tree. -/
theorem file_of_error {p : Problem} (h : destination t o a.path = .error p) :
    file t o a = (t, .error p) := by
  unfold file
  rw [h]

/-- An artifact whose place cannot be looked at has the problem of looking and leaves the tree. -/
theorem file_of_unseen {loc : Location} {p : Problem} (hplace : destination t o a.path = .ok loc)
    (h : existing t loc = .error p) : file t o a = (t, .error p) := by
  unfold file
  simp only [hplace, h]

/-- An artifact whose place was looked at is filed by what stands there. -/
theorem file_of_seen {loc : Location} {x : Option Item} (hplace : destination t o a.path = .ok loc)
    (h : existing t loc = .ok x) : file t o a = fileAt t o a loc x := by
  unfold file
  simp only [hplace, h]

end File

/-- What storing a text comes to at any place. -/
theorem storeAs_cases (t : FileTree) (o : Options) (loc : Location) (text : String)
    (r : MergeResult) :
    (storeAs t o loc text r).2 = .ok r ∨
      (storeAs t o loc text r).2 = .error (.file .unwritable) ∨
      (storeAs t o loc text r).2 = .error .unencodable := by
  simp only [storeAs, store]
  split
  · exact .inl rfl
  · simp only
    split
    · exact .inr (.inl rfl)
    · split
      · exact .inl rfl
      · exact .inr (.inr rfl)

/-- **What becomes of an artifact at any place depends on what stands there**, unless its file
cannot be written, or its text has no bytes. -/
theorem fileAt_cases (t : FileTree) (o : Options) (a : Artifact) (loc : Location)
    (x : Option Item) :
    (fileAt t o a loc x).2 = outcome o.strategy a x ∨
      (fileAt t o a loc x).2 = .error (.file .unwritable) ∨
      (fileAt t o a loc x).2 = .error .unencodable := by
  cases x with
  | none => exact storeAs_cases t o loc _ _
  | some item =>
    cases item with
    | directory => exact .inl rfl
    | link target => exact .inl rfl
    | file bytes =>
      rw [fileAt_file, outcome_file]
      cases hold : Text.ofUtf8? bytes with
      | none => exact .inl rfl
      | some old =>
        simp only
        rcases mergeInto_cases (a := a) hold t (o := o) rfl loc with ⟨hinto, -⟩ | ⟨text, hinto, -⟩
        · exact .inl (by rw [hinto])
        · rw [hinto]
          exact storeAs_cases t o loc _ _

/-- **What is reported of an artifact is about its path.** This is so for conflicts that come from
failures as well. -/
theorem path_of_settle {t : FileTree} {o : Options} {stopOnError : Bool} {a : Artifact}
    {r : MergeResult} (h : settle stopOnError a.path (file t o a).2 = .ok r) : r.path = a.path := by
  -- A problem that does not stop the run is reported under the path too.
  have herror : ∀ p, settle stopOnError a.path (.error p) = .ok r → r.path = a.path := by
    intro p hp
    cases p with
    | path e => exact absurd hp (by simp [settle])
    | unencodable => exact absurd hp (by simp [settle])
    | file e =>
      cases stopOnError with
      | true => exact absurd hp (by simp [settle])
      | false =>
        obtain rfl := Except.ok.inj hp
        rfl
  cases hplace : destination t o a.path with
  | error p =>
    rw [file_of_error hplace] at h
    exact herror p h
  | ok loc =>
    cases hseen : existing t loc with
    | error p =>
      rw [file_of_unseen hplace hseen] at h
      exact herror p h
    | ok x =>
      rw [file_of_seen hplace hseen] at h
      rcases fileAt_cases t o a loc x with houtcome | hunwritable | hunencodable
      · rw [houtcome] at h
        exact path_of_settle_outcome h
      · rw [hunwritable] at h
        exact herror _ h
      · rw [hunencodable] at h
        exact herror _ h

/-! ## Writing nothing -/

/-- The same options, with nothing written. -/
def Options.dry (o : Options) : Options := { o with dryRun := true }

/-- When nothing is written, storing a text is reporting it. -/
theorem storeAs_dry (t : FileTree) (o : Options) (loc : Location) (text : String)
    (r : MergeResult) : storeAs t o.dry loc text r = (t, .ok r) := rfl

/-- When nothing is written, the tree stays, and what becomes of an artifact depends on what is seen
at its place. -/
theorem fileAt_dry (t : FileTree) (o : Options) (a : Artifact) (loc : Location) (x : Option Item) :
    fileAt t o.dry a loc x = (t, outcome o.strategy a x) := by
  cases x with
  | none => rfl
  | some item =>
    cases item with
    | directory => rfl
    | link target => rfl
    | file bytes =>
      rw [fileAt_file, outcome_file]
      cases hold : Text.ofUtf8? bytes with
      | none => rfl
      | some old =>
        have hstrategy : o.dry.strategy = o.strategy := rfl
        simp only
        rcases mergeInto_cases (a := a) hold t hstrategy loc with ⟨hinto, -⟩ | ⟨text, hinto, -⟩
        · exact hinto
        · rw [hinto, storeAs_dry]

end FormScaffold.Sync
