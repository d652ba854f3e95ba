import FormScaffold.Proofs.Sync.Rehearsing
import FormScaffold.Proofs.View.Collisions
import FormScaffold.Proofs.View.Encoding

/-! # The order of artifacts

Artifacts at places of their own meet in the directories on the way alone. What becomes of each is
then decided before the run, and in which order they are synced matters only where one of them makes
the directory of a file whose name is too long: that file cannot be written before, and cannot be
looked at afterwards.

* `verdict`, `synced` — what is reported of an artifact, and what it makes of a tree;
* **`file_of_not_isStopped`** — this is what syncing it does, wherever its place can be looked at;
* `synced_comm` — what artifacts at places of their own make of a tree can be swapped;
* **`IsClear`** — the place of an artifact can be looked at, whichever others were synced before;
* `IsClear.file`, **`runEach_of_isClear`** — it stays so, and a run gives the reports in its order;
* `exists_of_not_isClear` — what keeps a place from being clear;
* `exists_perm_error` — an order in which there are no results, for artifacts that are not clear;
* **`ignoresOrder_iff_isClear`** — the order of rendered files does not matter exactly when their
  places are clear. -/

namespace FormScaffold.Sync

open View

/-! ## Reach -/

/-- The way to a location, as far as the names on it are short enough. -/
def reach (loc : Location) : Location := loc.takeWhile fun name => decide (IsShort name)

/-- What can be reached of the way to a location is on the way to it. -/
theorem reach_onWay (loc : Location) : reach loc <+: loc := List.takeWhile_prefix _

/-- A location all of whose names are short enough can be reached. -/
theorem reach_of_hasNames {loc : Location} (h : FileTree.HasNames loc) : reach loc = loc :=
  List.takeWhile_eq_self_iff.2 fun name hname => decide_eq_true (h name hname).2

/-- A name that is too long ends the way, whatever follows it. -/
theorem reach_of_long {above : Location} (h : FileTree.HasNames above) {name : String}
    (hlong : ¬IsShort name) (rest : List String) : reach (above ++ name :: rest) = above := by
  have hfront : ∀ m ∈ above, decide (IsShort m) = true := fun m hm => decide_eq_true (h m hm).2
  rw [reach, List.takeWhile_append_of_pos hfront, List.takeWhile_cons_of_neg (by simpa using hlong),
    List.append_nil]

/-- Names that are short enough are within reach. -/
theorem onWay_reach {above loc : Location} (h : FileTree.HasNames above) (hle : above <+: loc) :
    above <+: reach loc := by
  obtain ⟨rest, rfl⟩ := hle
  have hfront : ∀ m ∈ above, decide (IsShort m) = true := fun m hm => decide_eq_true (h m hm).2
  rw [reach, List.takeWhile_append_of_pos hfront]
  exact List.prefix_append _ _

/-! ## What becomes of an artifact -/

/-- What is reported of an artifact that can be looked at. -/
noncomputable def verdict (t : FileTree) (o : Options) (a : Artifact) : MergeResult :=
  observed t o a (freeReport o.strategy a (t.item? (place o a)))

/-- The contents after an artifact is synced that can be looked at: its file is renewed, as far as
its place is within reach. -/
noncomputable def synced (o : Options) (f : Contents) (a : Artifact) : Contents :=
  (renewalOf o a).upTo (reach (place o a)) f

/-- What is reported of an artifact alone is reported under its own path, as is what a run reports
of it. So reports can be told apart by their paths, whatever the order of the artifacts. -/
theorem path_verdict (t : FileTree) (o : Options) (a : Artifact) :
    (verdict t o a).path = a.path := by
  unfold verdict observed
  split
  · exact path_freeReport o.strategy a _
  · rfl

/-- **What artifacts make of a tree can be swapped** when their places are apart. What is put at the
end of one way does not stand on the other, and directories that both make are the same. -/
theorem synced_comm {o : Options} {a b : Artifact} (h : (renewalOf o a).Apart (renewalOf o b))
    (f : Contents) : synced o (synced o f b) a = synced o (synced o f a) b :=
  Renewal.upTo_comm h (reach_onWay _) (reach_onWay _)

/-- The order of artifacts that are apart does not matter to what they make of a tree. -/
theorem foldl_synced_perm {o : Options} {as bs : List Artifact} (h : as.Perm bs)
    (hapart : (as.map (renewalOf o)).Pairwise Renewal.Apart) (f : Contents) :
    as.foldl (synced o) f = bs.foldl (synced o) f := by
  refine h.foldl_eq' (fun a ha b hb g => ?_) f
  by_cases hsame : renewalOf o a = renewalOf o b
  · rw [synced, synced, synced, synced, hsame]
    have hplace : place o a = place o b := congrArg Renewal.loc hsame
    rw [hplace]
  · exact synced_comm (hapart.forall (List.mem_map_of_mem hb) (List.mem_map_of_mem ha)
      (Ne.symm hsame)) g

section Names

variable {t : FileTree} (h : Contents.IsSimple t.item?) {o : Options}
  (hcurrent : ∀ name ∈ o.current, IsName name)
include h hcurrent

/-- What is reported of an artifact depends only on what stands at its place and on the way there.
This is why syncing other artifacts before does not change it. -/
theorem verdict_congr {t' : FileTree} (h' : Contents.IsSimple t'.item?) {a : Artifact}
    (ha : IsRelative a) (hsame : Contents.SameAt t'.item? t.item? (place o a)) :
    verdict t' o a = verdict t o a := by
  have hopen := isOpen_congr h hcurrent h' ha hsame
  unfold verdict observed
  rw [hsame.item]
  by_cases hp : IsOpen t o a.path
  · rw [if_pos hp, if_pos (hopen.2 hp)]
  · rw [if_neg hp, if_neg fun hp' => hp (hopen.1 hp')]

/-- Whether a text without bytes would be written depends on the place of the artifact alone. -/
theorem isEncodable_congr {t' : FileTree} (h' : Contents.IsSimple t'.item?) {a : Artifact}
    (ha : IsRelative a) (hsame : Contents.SameAt t'.item? t.item? (place o a))
    (hencodable : IsOpen t o a.path → IsEncodable t o a) :
    IsOpen t' o a.path → IsEncodable t' o a := by
  intro hp
  have hencodable := hencodable ((isOpen_congr h hcurrent h' ha hsame).1 hp)
  rwa [IsEncodable, hsame.item]

variable (hreal : o.dryRun = false)
include hreal

/-- A run ends at an artifact whose place is open, when its text has no bytes. -/
theorem results_of_not_isEncodable (stopOnError : Bool) {a : Artifact} (ha : IsRelative a)
    (hp : IsOpen t o a.path) (hencodable : ¬IsEncodable t o a) (as : List Artifact) :
    (runEach o stopOnError t (a :: as)).results = .error (.fault .unencodable) := by
  obtain ⟨loc, hplace, -⟩ := id hp
  obtain ⟨-, hne⟩ := isName_of_destination h hcurrent hplace
  obtain rfl := eq_of_destination h hcurrent ha hplace
  obtain ⟨-, t', hfile, -⟩ := file_of_isOpen h hplace hreal hne hp
  have hlost : filed o.strategy a (t.item? (place o a)) = .error .unencodable := if_neg hencodable
  have hstops : settle stopOnError a.path (file t o a).2 = .error (.fault .unencodable) := by
    rw [hfile]
    exact congrArg (settle stopOnError a.path) hlost
  rw [runEach_of_error hstops]

/-- **What becomes of an artifact whose place can be looked at**, whether its file can be written or
not, when what would be written there has bytes. -/
theorem file_of_not_isStopped {a : Artifact} (ha : IsRelative a) (hs : ¬IsStopped t o a.path)
    (hencodable : IsOpen t o a.path → IsEncodable t o a) :
    settle false a.path (file t o a).2 = .ok (verdict t o a) ∧
      (file t o a).1.item? = synced o t.item? a := by
  obtain ⟨hplace, hflaw⟩ := destination_of_not_isStopped h hcurrent ha hs
  obtain ⟨hnames, hne⟩ := isName_of_destination h hcurrent hplace
  have hclosed : ∀ t' : FileTree, file t o a = (t', .error (.file .unwritable)) →
      ¬IsOpen t o a.path → settle false a.path (file t o a).2 = .ok (verdict t o a) := by
    intro t' hfile hp
    rw [hfile, verdict, observed, if_neg hp]
    rfl
  rcases way_cases h hnames with ⟨hshort, hfree⟩ | ⟨above, name, rest, bytes, hsplit, habove,
    hitem⟩ | ⟨above, name, rest, hsplit, habove, hname, hlong, hfree, hdirectory | hnone⟩
  · have hp : IsOpen t o a.path := ⟨_, hplace, hflaw, hshort, hfree⟩
    obtain ⟨-, t', hfile, ht'⟩ := file_of_isOpen h hplace hreal hne hp
    have hfiled : filed o.strategy a (t.item? (place o a)) =
        outcome o.strategy a (t.item? (place o a)) := if_pos (hencodable hp)
    rw [hfile, hfiled, verdict, observed, if_pos hp, synced, reach_of_hasNames hshort]
    exact ⟨settle_outcome o.strategy a _, ht'.trans (Renewal.upTo_loc _ _).symm⟩
  · have hblocked : Contents.IsBlocked t.item? (place o a) :=
      hsplit ▸ Contents.isBlocked_of_file hitem name rest
    obtain ⟨-, t', hfile, ht'⟩ := file_of_blocked h hplace hreal hflaw hsplit habove hitem
    refine ⟨hclosed t' hfile ?_, ?_⟩
    · rintro ⟨loc, hplace', -, -, hfree⟩
      obtain rfl := Except.ok.inj (hplace.symm.trans hplace')
      exact hfree hblocked
    · rw [hfile, synced, Renewal.upTo_of_blocked hblocked]
      exact ht'
  · exact absurd (.inr ⟨_, hplace, .inr ⟨above, name, rest, hsplit, habove, hname, hlong,
      hdirectory⟩⟩) hs
  · -- The way is paved, and ends before the name that is too long.
    have hway : above <+: place o a := hsplit ▸ List.prefix_append _ _
    have hother : above ≠ place o a := by
      rw [hsplit]
      simp
    have hfree' : ¬Contents.IsBlocked t.item? (place o a) := fun hblocked =>
      hfree (((h.isBlocked_iff_of_none hway hnone).1 hblocked).mono (List.prefix_append _ _))
    obtain ⟨-, t', hfile, ht'⟩ :=
      file_of_long h hplace hreal hflaw hsplit habove hname hlong hfree hnone
    refine ⟨hclosed t' hfile ?_, ?_⟩
    · rintro ⟨loc, hplace', -, hshort, -⟩
      obtain rfl := Except.ok.inj (hplace.symm.trans hplace')
      exact hlong (hshort name (by rw [hsplit]; simp)).2
    · have hreach : reach (place o a) = above := by rw [hsplit, reach_of_long habove hlong]
      rw [hfile, synced, hreach]
      exact ht'.trans (Renewal.upTo_eq_paved (r := renewalOf o a) hfree' hway hother).symm

/-- An artifact makes the directories on the way to its place that are not there. -/
theorem directory_of_file {a : Artifact} (ha : IsRelative a) (hs : ¬IsStopped t o a.path)
    (hencodable : IsOpen t o a.path → IsEncodable t o a) {above : Location}
    (habove : FileTree.HasNames above) (hway : above <+: place o a) (hne : above ≠ place o a)
    (hfree : ¬Contents.IsBlocked t.item? above)
    (hnone : t.item? above = none) : (file t o a).1.item? above = some .directory := by
  have hfree' : ¬Contents.IsBlocked t.item? (place o a) := fun hblocked =>
    hfree ((h.isBlocked_iff_of_none hway hnone).1 hblocked)
  obtain ⟨-, hitem⟩ := file_of_not_isStopped h hcurrent hreal ha hs hencodable
  rw [hitem, synced, Renewal.upTo_onWay (onWay_reach habove hway)]
  exact Renewal.apply_onWay hfree' hway hne

end Names

/-! ## Clear places -/

/-- The place of an artifact can be looked at, whichever others were synced before: its path is not
too long and has no NUL in it, and where one of its names is too long, a file stands on the way to
it, or its directory is not there and no other artifact goes there. -/
def IsClear (t : FileTree) (o : Options) (as : List Artifact) (a : Artifact) : Prop :=
  ∃ loc, destination t o a.path = .ok loc ∧ (pathOf loc).flaw? = none ∧
    ∀ above name, above ++ [name] <+: loc → FileTree.HasNames above → ¬IsShort name →
      Contents.IsBlocked t.item? (above ++ [name]) ∨
        t.item? above = none ∧ ∀ b ∈ as, b ≠ a → ¬above <+: place o b

section Clear

variable {t : FileTree} (h : Contents.IsSimple t.item?) {o : Options} {as : List Artifact}

include h in
/-- A clear place stops no run. -/
theorem IsClear.not_isStopped {a : Artifact} (hclear : IsClear t o as a) :
    ¬IsStopped t o a.path := by
  obtain ⟨loc, hplace, hflaw, hlong⟩ := hclear
  rintro (⟨e, he⟩ | ⟨loc', hplace', hflawed | ⟨above, name, rest, rfl, habove, -, hname,
    hdirectory⟩⟩)
  · rw [hplace] at he
    exact absurd he (by simp)
  · obtain rfl := Except.ok.inj (hplace.symm.trans hplace')
    exact hflawed hflaw
  · obtain rfl := Except.ok.inj (hplace.symm.trans hplace')
    rcases hlong above name ⟨rest, by simp⟩ habove hname with hblocked | ⟨hnone, -⟩
    · exact h.not_isBlocked_concat hdirectory name hblocked
    · rw [hdirectory] at hnone
      exact absurd hnone (by simp)

variable (hcurrent : ∀ name ∈ o.current, IsName name)
include h hcurrent

/-- **A place whose names are short enough is clear.** No name on the way to it can stop the
looking. -/
theorem isClear_of_hasNames {a : Artifact} (ha : IsRelative a)
    (hroot : ∀ name ∈ o.root.steps, textFlaw? name = none) (hnames : FileTree.HasNames (place o a))
    (hflaw : (pathOf (place o a)).flaw? = none) : IsClear t o as a := by
  refine ⟨place o a, ?_, hflaw, fun above name hle _ hlong => ?_⟩
  · exact destination_of_resolve h hcurrent ha.ofText ha.names ha.ne_nil hroot
      (Path.flaw?_eq_none.1 hflaw).1
  · exact absurd (hnames name (hle.subset (by simp))).2 hlong

/-- **What keeps a place from being clear** that can be looked at is another artifact that goes to
where its first name is that is too long. -/
theorem exists_of_not_isClear {a : Artifact} (ha : IsRelative a) (hs : ¬IsStopped t o a.path)
    (hclear : ¬IsClear t o as a) :
    ∃ above name rest, place o a = above ++ name :: rest ∧ FileTree.HasNames above ∧ IsName name ∧
      ¬IsShort name ∧ ¬Contents.IsBlocked t.item? above ∧ t.item? above = none ∧
      ∃ b ∈ as, b ≠ a ∧ above <+: place o b := by
  obtain ⟨hplace, hflaw⟩ := destination_of_not_isStopped h hcurrent ha hs
  obtain ⟨hnames, -⟩ := isName_of_destination h hcurrent hplace
  by_contra hnot
  refine hclear ⟨_, hplace, hflaw, fun above name hle habove hlong => ?_⟩
  refine or_iff_not_imp_left.2 fun hfree => ?_
  have hname : IsName name := hnames name (hle.subset (by simp))
  obtain ⟨rest, hsplit⟩ := hle
  rw [List.append_assoc, List.singleton_append] at hsplit
  have hnone : t.item? above = none := by
    refine (h.directory_or_none hfree (List.prefix_append _ _) (by simp)).resolve_left ?_
    intro hdirectory
    exact hs (.inr ⟨_, hplace, .inr ⟨above, name, rest, hsplit.symm, habove, hname, hlong,
      hdirectory⟩⟩)
  refine ⟨hnone, fun b hb hother hway => hnot ?_⟩
  exact ⟨above, name, rest, hsplit.symm, habove, hname, hlong,
    fun hblocked => hfree (hblocked.mono (List.prefix_append _ _)), hnone, b, hb, hother, hway⟩

variable (hreal : o.dryRun = false)
include hreal

/-- **What is clear stays clear** when another artifact is synced. The other artifact can make
directories only where it goes itself. -/
theorem IsClear.file {a b : Artifact} (hclear : IsClear t o as a) (ha : IsRelative a)
    (hb : IsRelative b) (hmem : b ∈ as) (hapart : (renewalOf o b).Apart (renewalOf o a)) :
    IsClear (Sync.file t o b).1 o as a := by
  obtain ⟨loc, hplace, hflaw, hlong⟩ := hclear
  obtain rfl := eq_of_destination h hcurrent ha hplace
  obtain ⟨hsimple, -⟩ := file_keeps h hcurrent hreal (a := b)
  have hother : b ≠ a := by
    rintro rfl
    exact hapart.1 List.prefix_rfl
  refine ⟨_, (destination_congr hsimple h a.path).trans hplace, hflaw, ?_⟩
  intro above name hle habove hname
  rcases hlong above name hle habove hname with ⟨l, bytes, hl, hne, hitem⟩ | ⟨hnone, hoff⟩
  · -- No artifact goes to where the file stands.
    refine .inl ⟨l, bytes, hl, hne, ?_⟩
    refine (file_eq_file_iff h hcurrent hreal (fun hplace' => ?_) bytes).2 hitem
    obtain rfl := eq_of_destination h hcurrent hb hplace'
    exact hapart.1 (hl.trans hle)
  · refine .inr ⟨?_, hoff⟩
    have hoffb := hoff b hmem hother
    rcases file_item? h hcurrent hreal (a := b) with hsame | ⟨loc, hplace', -,
      ⟨front, hfront, -, -, ht'⟩ | ht'⟩
    · rw [hsame, hnone]
    · obtain rfl := eq_of_destination h hcurrent hb hplace'
      rw [ht', Contents.paved_offWay _ fun hl => hoffb (hl.trans hfront), hnone]
    · obtain rfl := eq_of_destination h hcurrent hb hplace'
      rw [ht', ← hnone]
      exact Renewal.apply_offWay (r := renewalOf o b) hoffb

/-! ## Runs -/

/-- **A run over clear artifacts** reports of each what was decided before, and makes of the tree
what each of them makes of it. -/
theorem runEach_of_isClear {bs : List Artifact} (hsub : bs ⊆ as)
    (hrelative : ∀ a ∈ bs, IsRelative a)
    (hapart : (bs.map (renewalOf o)).Pairwise Renewal.Apart)
    (hclear : ∀ a ∈ bs, IsClear t o as a)
    (hencodable : ∀ a ∈ bs, IsOpen t o a.path → IsEncodable t o a) :
    (runEach o false t bs).results = .ok (bs.map (verdict t o)) ∧
      (runEach o false t bs).tree.item? = bs.foldl (synced o) t.item? := by
  induction bs generalizing t with
  | nil => exact ⟨rfl, rfl⟩
  | cons b bs ih =>
    obtain ⟨hb, hrelative⟩ := List.forall_mem_cons.1 hrelative
    obtain ⟨hfirst, hapart⟩ := List.pairwise_cons.1 hapart
    obtain ⟨hclearb, hclear⟩ := List.forall_mem_cons.1 hclear
    obtain ⟨hencodableb, hencodable⟩ := List.forall_mem_cons.1 hencodable
    obtain ⟨hsettle, hitem⟩ :=
      file_of_not_isStopped h hcurrent hreal hb (hclearb.not_isStopped h) hencodableb
    obtain ⟨hsimple, -⟩ := file_keeps h hcurrent hreal (a := b)
    have hothers : ∀ a ∈ bs, (renewalOf o b).Apart (renewalOf o a) :=
      fun a ha => hfirst _ (List.mem_map_of_mem ha)
    have hkept : ∀ a ∈ bs, IsClear (file t o b).1 o as a := fun a ha =>
      (hclear a ha).file h hcurrent hreal (hrelative a ha) hb (hsub List.mem_cons_self)
        (hothers a ha)
    -- The places of the others are as they were.
    have hplaces : ∀ a ∈ bs, Contents.SameAt (file t o b).1.item? t.item? (place o a) := by
      intro a ha
      refine file_sameAt h hcurrent hreal fun loc hplace => ?_
      obtain rfl := eq_of_destination h hcurrent hb hplace
      exact hothers a ha
    obtain ⟨hresults, htree⟩ := ih hsimple (fun a ha => hsub (List.mem_cons_of_mem b ha))
      hrelative hapart hkept fun a ha =>
        isEncodable_congr h hcurrent hsimple (hrelative a ha) (hplaces a ha) (hencodable a ha)
    have hsame : bs.map (verdict (file t o b).1 o) = bs.map (verdict t o) :=
      List.map_congr_left fun a ha =>
        verdict_congr h hcurrent hsimple (hrelative a ha) (hplaces a ha)
    rw [runEach_of_ok hsettle]
    refine ⟨?_, ?_⟩
    · simp only [Outcome.cons, hresults, hsame, Except.map, List.map_cons]
    · rw [List.foldl_cons, ← hitem]
      exact htree

/-- A text without bytes ends the run when it comes first. -/
theorem exists_perm_of_not_isEncodable {b : Artifact} (hb : b ∈ as) (hrelative : IsRelative b)
    (hlost : ¬(IsOpen t o b.path → IsEncodable t o b)) :
    ∃ bs, bs.Perm as ∧ ∃ e, (runEach o false t bs).results = .error e := by
  classical
  obtain ⟨hp, hencodable⟩ := Classical.not_imp.1 hlost
  exact ⟨b :: as.erase b, (List.perm_cons_erase hb).symm, _,
    results_of_not_isEncodable h hcurrent hreal false hrelative hp hencodable _⟩

/-- **An artifact that is not clear is stopped by another one.** That one makes the directory in
which a name is looked for that is too long. -/
theorem exists_isStopped_file (hrelative : ∀ a ∈ as, IsRelative a)
    (hapart : (as.map (renewalOf o)).Pairwise Renewal.Apart) {a : Artifact} (ha : a ∈ as)
    (hs : ¬IsStopped t o a.path) (hclear : ¬IsClear t o as a) :
    ∃ b ∈ as, b ≠ a ∧ (¬IsStopped t o b.path → (IsOpen t o b.path → IsEncodable t o b) →
      IsStopped (file t o b).1 o a.path) := by
  obtain ⟨above, name, rest, hsplit, habove, hname, hlong, hfree, hnone, b, hb, hother, hway⟩ :=
    exists_of_not_isClear h hcurrent (hrelative a ha) hs hclear
  refine ⟨b, hb, hother, fun hsb hencodable => ?_⟩
  -- The directory is not the place of the other artifact, which is apart from that of the first.
  have hne : above ≠ place o b := by
    rintro rfl
    have hapartb : (renewalOf o b).Apart (renewalOf o a) :=
      (List.pairwise_map.1 hapart).forall hb ha hother
    refine hapartb.1 ?_
    show place o b <+: place o a
    rw [hsplit]
    exact List.prefix_append _ _
  have hmade : (file t o b).1.item? above = some .directory :=
    directory_of_file h hcurrent hreal (hrelative b hb) hsb hencodable habove hway hne hfree hnone
  obtain ⟨hsimple, -⟩ := file_keeps h hcurrent hreal (a := b)
  have hplace : destination (file t o b).1 o a.path = .ok (place o a) :=
    (destination_congr hsimple h a.path).trans
      (destination_of_not_isStopped h hcurrent (hrelative a ha) hs).1
  exact .inr ⟨_, hplace, .inr ⟨above, name, rest, hsplit, habove, hname, hlong, hmade⟩⟩

/-- **Artifacts that are not clear have an order in which there are no results**: one of them makes
the directory of another one whose name is too long, and is synced before. So it is with one whose
text has no bytes, when it comes first. -/
theorem exists_perm_error (hrelative : ∀ a ∈ as, IsRelative a)
    (hapart : (as.map (renewalOf o)).Pairwise Renewal.Apart) {a : Artifact} (ha : a ∈ as)
    (hclear : ¬(IsClear t o as a ∧ (IsOpen t o a.path → IsEncodable t o a))) :
    ∃ bs, bs.Perm as ∧ ∃ e, (runEach o false t bs).results = .error e := by
  classical
  by_cases hencodable : IsOpen t o a.path → IsEncodable t o a
  swap
  · exact exists_perm_of_not_isEncodable h hcurrent hreal ha (hrelative a ha) hencodable
  have hclear : ¬IsClear t o as a := fun hclear' => hclear ⟨hclear', hencodable⟩
  by_cases hs : IsStopped t o a.path
  · exact ⟨as, .refl as, results_of_isStopped hcurrent hreal false h ha hs⟩
  obtain ⟨b, hb, hother, hstops⟩ :=
    exists_isStopped_file h hcurrent hreal hrelative hapart ha hs hclear
  by_cases hencodableb : IsOpen t o b.path → IsEncodable t o b
  swap
  · exact exists_perm_of_not_isEncodable h hcurrent hreal hb (hrelative b hb) hencodableb
  refine ⟨b :: as.erase b, (List.perm_cons_erase hb).symm, ?_⟩
  by_cases hsb : IsStopped t o b.path
  · exact results_of_isStopped hcurrent hreal false h List.mem_cons_self hsb
  · -- The other artifact comes first, and then there is no result for the one that it stops.
    obtain ⟨hsettle, -⟩ := file_of_not_isStopped h hcurrent hreal (hrelative b hb) hsb hencodableb
    obtain ⟨hsimple, -⟩ := file_keeps h hcurrent hreal (a := b)
    obtain ⟨e, he⟩ := results_of_isStopped hcurrent hreal false hsimple
      ((List.mem_erase_of_ne hother.symm).2 ha) (hstops hsb hencodableb)
    rw [runEach_of_ok hsettle]
    exact ⟨e, by simp only [Outcome.cons, he, Except.map]⟩

end Clear

/-! ## Renderings -/

/-- The order of artifacts does not matter: whatever it is, the same is reported of each of them,
and the same is left in the tree. -/
def IgnoresOrder (t : FileTree) (o : Options) (files : List Artifact) : Prop :=
  ∃ result : Artifact → MergeResult, (∀ a ∈ files, (result a).path = a.path) ∧
    ∀ as, as.Perm files → (run t o false as).results = .ok (as.map result) ∧
      (run t o false as).tree.Agrees (run t o false files).tree

/-- **When the order of rendered files does not matter.** The files of a contract, or of contracts
with slugs of their own, are synced into a tree without links. In whatever order this is done, it
gives results, the same for each file, and leaves the same tree, exactly when the place of each file
is clear of the others, and what is to be written there has bytes, if it is open. -/
theorem ignoresOrder_iff_isClear {files : List Artifact} (hfiles : IsRendered files) {t : FileTree}
    (ht : Contents.IsSimple t.item?) {o : Options} (hcurrent : ∀ name ∈ o.current, IsName name)
    (hreal : o.dryRun = false) :
    IgnoresOrder t o files ↔
      ∀ a ∈ files, IsClear t o files a ∧ (IsOpen t o a.path → IsEncodable t o a) := by
  obtain ⟨language, spots, hspots⟩ := areSpots_of_isRendered hfiles
  have hrelative := hspots.isRelative
  have hapart := hspots.pairwise_apart o
  have hrun : ∀ as, as.Perm files → (as.map (renewalOf o)).Pairwise Renewal.Apart ∧
      run t o false as = runEach o false t as := by
    intro as hperm
    have hapart' := ((hperm.map (renewalOf o)).pairwise_iff Renewal.Apart.symm).2 hapart
    exact ⟨hapart', run_eq_runEach (nodup_paths hapart') o false t⟩
  constructor
  · rintro ⟨result, -, hresult⟩ a ha
    by_contra hclear
    obtain ⟨as, hperm, e, he⟩ := exists_perm_error ht hcurrent hreal hrelative hapart ha hclear
    have hok := (hresult as hperm).1
    rw [(hrun as hperm).2, he] at hok
    exact absurd hok (by simp)
  · intro hclear
    refine ⟨verdict t o, fun a _ => path_verdict t o a, fun as hperm => ?_⟩
    have hclears : ∀ as, as.Perm files →
        (run t o false as).results = .ok (as.map (verdict t o)) ∧
          (run t o false as).tree.item? = as.foldl (synced o) t.item? := by
      intro as hperm
      obtain ⟨hapart', hrun'⟩ := hrun as hperm
      rw [hrun']
      exact runEach_of_isClear ht hcurrent hreal hperm.subset
        (fun a ha => hrelative a (hperm.subset ha)) hapart'
        (fun a ha => (hclear a (hperm.subset ha)).1) fun a ha => (hclear a (hperm.subset ha)).2
    obtain ⟨hresults, htree⟩ := hclears as hperm
    refine ⟨hresults, fun loc => ?_⟩
    rw [htree, (hclears files (.refl files)).2, foldl_synced_perm hperm (hrun as hperm).1]

/-- Two entities are synced into an empty tree in any order. -/
theorem ignoresOrder_orders :
    ∃ c c' files, Contract.build ordersSource "Sales Order" (some "plain") = .ok c ∧
      Contract.build ordersSource "Invoice" (some "plain") = .ok c' ∧
      renderEach [.ok c, .ok c'] "plain" "js" = .ok files ∧
      IgnoresOrder FileTree.empty (respecting [] (Path.ofText "out")) files := by
  -- Both contracts are rendered, and take no text without bytes into their files.
  have hbuilds : ∀ entity ∈ ["Sales Order", "Invoice"],
      ∃ c, Contract.build ordersSource entity (some "plain") = .ok c ∧ c.entity = entity ∧
        (∀ v ∈ keptNames c, v.isKey = true) ∧ TakesUnmarked c Preset.plain.layout .js := by
    intro entity hentity
    obtain ⟨c, hbuild, heq⟩ := exists_of_map_toOption
      (show (Contract.build ordersSource entity (some "plain")).toOption.map (fun c =>
        (c.entity, (keptNames c).all Value.isKey,
          decide (TakesUnmarked c Preset.plain.layout .js))) = some (entity, true, true) by
        revert entity
        decide +kernel)
    simp only [Prod.mk.injEq, List.all_eq_true, decide_eq_true_eq] at heq
    exact ⟨c, hbuild, heq⟩
  obtain ⟨c, hbuild, hentity, hkeys, hdata⟩ := hbuilds "Sales Order" (by simp)
  obtain ⟨c', hbuild', hentity', hkeys', hdata'⟩ := hbuilds "Invoice" (by simp)
  have hrender := renderEach_eq [c, c'] (resolvePreset_name .plain)
    (ofWord?_word .js)
  rw [if_pos (by simpa using ⟨hkeys, hkeys'⟩)] at hrender
  have hslugs : ([c, c'].map fun c => Naming.slug c.entity).Nodup := by
    simp only [List.map_cons, List.map_nil, hentity, hentity']
    decide
  have hrendered := IsRendered.each hslugs hrender
  refine ⟨c, c', _, hbuild, hbuild', hrender, ?_⟩
  refine (ignoresOrder_iff_isClear hrendered Contents.isSimple_empty (by simp) rfl).2 ?_
  intro a ha
  obtain ⟨language, spots, hspots⟩ := areSpots_of_isRendered hrendered
  obtain ⟨hpaired, e, he, k, hk, hpath⟩ : Text.isPaired a.content = true ∧ ∃ e ∈ [c, c'],
      ∃ k ∈ FileKind.all true, a.path = k.path (.ofContract e .js) := by
    rcases List.mem_append.1 ha with ha | ha
    · obtain ⟨k, hk, hpath⟩ := exists_of_mem_forall₂ (path_sharedArtifacts (.ofContract c .js)) ha
      exact ⟨isPaired_shared .js a ha, c, by simp, k, List.mem_append_left _ hk, hpath⟩
    · obtain ⟨own, hown, ha⟩ := List.mem_flatten.1 ha
      obtain ⟨e, he, rfl⟩ := List.mem_map.1 hown
      obtain ⟨k, hk, hpath⟩ := exists_of_mem_forall₂ (path_entityArtifacts e _ .js) ha
      have hunmarked : TakesUnmarked e Preset.plain.layout .js := by
        rcases List.mem_cons.1 he with rfl | he
        · exact hdata
        · exact List.mem_singleton.1 he ▸ hdata'
      exact ⟨isPaired_entity hunmarked a ha, e, he, k, List.mem_append_right _ hk, hpath⟩
  -- No name on the way to a file is too long, nor is the whole path.
  have hlengths : ∀ entity ∈ ["Sales Order", "Invoice"], (Naming.slug entity).length ≤ 50 := by
    decide
  have hentities : e.entity ∈ ["Sales Order", "Invoice"] := by
    rcases List.mem_cons.1 he with rfl | he
    · simp [hentity]
    · rw [List.mem_singleton.1 he]
      simp [hentity']
  have hslug : FileKind.IsSlug (Names.ofContract e .js).slug := isSlug_slug e.entity
  obtain ⟨hnames, hflaw⟩ := FileKind.fits_steps hslug isModest_base_out (by decide)
    (hlengths e.entity hentities) k
  have hplace : place (respecting [] (Path.ofText "out")) a =
      base (respecting [] (Path.ofText "out")) ++ k.steps (.ofContract e .js) :=
    @place_of_path ⟨k, .ofContract e .js⟩ hslug a hpath _
  refine ⟨isClear_of_hasNames Contents.isSimple_empty (by simp) (hspots.isRelative a ha)
    textFlaw?_out (hplace ▸ hnames) (hplace ▸ hflaw), fun _ => ?_⟩
  -- Nothing stands in the tree, so that the text of the file itself is written.
  have hnone : FileTree.empty.item? (place (respecting [] (Path.ofText "out")) a) = none := by
    rw [hplace]
    exact if_neg (by rw [FileKind.steps_eq]; simp)
  rw [IsEncodable, hnone]
  exact hpaired

end FormScaffold.Sync
