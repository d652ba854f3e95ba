import FormScaffold.Proofs.Sync.Reaching

/-! # Runs

A run syncs artifacts one after the other. When their places are apart and can be looked at, it
renews all files, and every report says what was found before the run.

* `runFrom_cons_ok` — what a run makes of an artifact and those after it;
* **`runEach`**, `run_eq_runEach` — a run over artifacts with paths of their own;
* **`runEach_of_isPassable`** — a run over passable artifacts;
* `runEach_keeps` — what every run leaves as it was;
* **`results_of_isStopped`** — a run over artifacts one of which is stopped gives no results. -/

namespace FormScaffold.Sync

/-! ## Runs without repeated paths -/

/-- Syncs artifacts one after the other, none of which has the path of an earlier one. -/
def runEach (o : Options) (stopOnError : Bool) (t : FileTree) : List Artifact → Outcome
  | [] => ⟨t, .ok []⟩
  | a :: rest =>
    match settle stopOnError a.path (file t o a).2 with
    | .ok r => (runEach o stopOnError (file t o a).1 rest).cons r
    | .error e => ⟨(file t o a).1, .error e⟩

/-- A run goes on after what is reported of an artifact. -/
theorem runEach_of_ok {o : Options} {stopOnError : Bool} {t : FileTree} {a : Artifact}
    {r : MergeResult} (h : settle stopOnError a.path (file t o a).2 = .ok r)
    (rest : List Artifact) :
    runEach o stopOnError t (a :: rest) = (runEach o stopOnError (file t o a).1 rest).cons r := by
  rw [runEach, h]

/-- A run stops at an artifact of which nothing can be reported. -/
theorem runEach_of_error {o : Options} {stopOnError : Bool} {t : FileTree} {a : Artifact}
    {e : Failure} (h : settle stopOnError a.path (file t o a).2 = .error e)
    (rest : List Artifact) :
    runEach o stopOnError t (a :: rest) = ⟨(file t o a).1, .error e⟩ := by
  rw [runEach, h]

/-- A run at an artifact with a path that is new. -/
theorem runFrom_of_new {o : Options} {stopOnError : Bool} {t : FileTree}
    {seen : List (String × String)} {a : Artifact} (h : seen.lookup a.path = none)
    (rest : List Artifact) :
    runFrom o stopOnError t seen (a :: rest) =
      match settle stopOnError a.path (file t o a).2 with
      | .ok r =>
        (runFrom o stopOnError (file t o a).1 ((a.path, a.content) :: seen) rest).cons r
      | .error e => ⟨(file t o a).1, .error e⟩ := by
  rw [runFrom, h]
  rcases hfile : file t o a with ⟨t', (e | e | _) | r⟩
  · simp only [settle]
    cases stopOnError <;> rfl
  · rfl
  · rfl
  · rfl

/-- A run at an artifact with a path that an earlier one had. -/
theorem runFrom_of_seen {o : Options} {stopOnError : Bool} {t : FileTree}
    {seen : List (String × String)} {a : Artifact} {content : String}
    (h : seen.lookup a.path = some content) (rest : List Artifact) :
    runFrom o stopOnError t seen (a :: rest) =
      if content == a.content then runFrom o stopOnError t seen rest
      else (runFrom o stopOnError t seen rest).cons (.ofConflict a.path duplicateReason) := by
  rw [runFrom, h]

/-- What is reported of an artifact with a path that was seen with a text. -/
def repeated (content : String) (a : Artifact) : List MergeResult :=
  if content = a.content then [] else [.ofConflict a.path duplicateReason]

/-- A path that was seen with another text is reported as a conflict, and with the same text not at
all. -/
theorem mem_repeated {content : String} {a : Artifact} {r : MergeResult} :
    r ∈ repeated content a ↔ content ≠ a.content ∧ r = .ofConflict a.path duplicateReason := by
  unfold repeated
  split <;> simp [*]

/-- What a run makes of an artifact and those after it, when it gives results. -/
theorem runFrom_cons_ok {o : Options} {stopOnError : Bool} {t : FileTree}
    {seen : List (String × String)} {a : Artifact} {as : List Artifact} {rs : List MergeResult}
    (h : (runFrom o stopOnError t seen (a :: as)).results = .ok rs) :
    (∃ content rs', seen.lookup a.path = some content ∧
        (runFrom o stopOnError t seen (a :: as)).tree = (runFrom o stopOnError t seen as).tree ∧
        (runFrom o stopOnError t seen as).results = .ok rs' ∧ rs = repeated content a ++ rs') ∨
      ∃ r rs', seen.lookup a.path = none ∧ settle stopOnError a.path (file t o a).2 = .ok r ∧
        (runFrom o stopOnError t seen (a :: as)).tree =
          (runFrom o stopOnError (file t o a).1 ((a.path, a.content) :: seen) as).tree ∧
        (runFrom o stopOnError (file t o a).1 ((a.path, a.content) :: seen) as).results = .ok rs' ∧
        rs = r :: rs' := by
  -- A run with a report put in front has results when the run has.
  have hcons : ∀ {r : MergeResult} {x : Outcome}, (x.cons r).results = .ok rs →
      ∃ rs', x.results = .ok rs' ∧ rs = r :: rs' := by
    intro r x hx
    cases hres : x.results with
    | error e =>
      rw [Outcome.cons, hres] at hx
      exact absurd hx (by simp [Except.map])
    | ok rs' =>
      rw [Outcome.cons, hres] at hx
      exact ⟨rs', rfl, (Except.ok.inj hx).symm⟩
  cases hseen : seen.lookup a.path with
  | some content =>
    rw [runFrom_of_seen hseen] at h ⊢
    by_cases hcontent : content = a.content
    · rw [if_pos (beq_iff_eq.2 hcontent)] at h ⊢
      exact .inl ⟨content, rs, rfl, rfl, h, by rw [repeated, if_pos hcontent]; rfl⟩
    · rw [if_neg (by simpa using hcontent)] at h ⊢
      obtain ⟨rs', hrs', rfl⟩ := hcons h
      exact .inl ⟨content, rs', rfl, rfl, hrs', by rw [repeated, if_neg hcontent]; rfl⟩
  | none =>
    rw [runFrom_of_new hseen] at h ⊢
    cases hsettle : settle stopOnError a.path (file t o a).2 with
    | error e =>
      rw [hsettle] at h
      exact absurd h (by simp)
    | ok r =>
      rw [hsettle] at h
      obtain ⟨rs', hrs', rfl⟩ := hcons h
      exact .inr ⟨r, rs', rfl, rfl, rfl, hrs', rfl⟩

/-- **Where no path is repeated, a run syncs each artifact in turn.** -/
theorem runFrom_eq_runEach {o : Options} {stopOnError : Bool} {as : List Artifact}
    (hpaths : (as.map (·.path)).Nodup) {seen : List (String × String)}
    (hseen : ∀ a ∈ as, seen.lookup a.path = none) (t : FileTree) :
    runFrom o stopOnError t seen as = runEach o stopOnError t as := by
  induction as generalizing t seen with
  | nil => rw [runFrom_nil, runEach]
  | cons a as ih =>
    obtain ⟨hnew, hpaths⟩ := List.nodup_cons.1 hpaths
    have hrest : ∀ b ∈ as, ((a.path, a.content) :: seen).lookup b.path = none := by
      intro b hb
      have hne : (b.path == a.path) = false := by
        exact beq_eq_false_iff_ne.2 fun heq => hnew (List.mem_map.2 ⟨b, hb, heq⟩)
      rw [List.lookup_cons, hne]
      exact hseen b (List.mem_cons_of_mem _ hb)
    rw [runFrom_of_new (hseen a List.mem_cons_self), runEach, ih hpaths hrest]

/-- **A run over artifacts with paths of their own** needs no memory of them. The memory of paths is
only asked for paths that come again. -/
theorem run_eq_runEach {as : List Artifact} (hpaths : (as.map (·.path)).Nodup) (o : Options)
    (stopOnError : Bool) (t : FileTree) : run t o stopOnError as = runEach o stopOnError t as :=
  runFrom_eq_runEach hpaths (fun _ _ => rfl) t

/-! ## Places -/

/-- Where an artifact goes, when its path leads there by names. -/
def place (o : Options) (a : Artifact) : Location := base o ++ (Path.ofText a.path).steps

/-- The path of an artifact leads to its place by names. -/
def IsRelative (a : Artifact) : Prop := IsPathOf (Path.ofText a.path).steps a.path

/-- What an artifact renews. -/
def renewalOf (o : Options) (a : Artifact) : Renewal := renewal o.strategy a (place o a)

/-- What is reported of an artifact at its place. -/
noncomputable def reportOf (o : Options) (f : Contents) (a : Artifact) : MergeResult :=
  report o.strategy a (place o a) f

/-- What is reported of an artifact depends only on what stands at its place and on the way there.
-/
theorem reportOf_congr {o : Options} {f g : Contents} {a : Artifact}
    (h : f.SameAt g (place o a)) : reportOf o f a = reportOf o g a := by
  unfold reportOf report
  by_cases hblocked : f.IsBlocked (place o a)
  · rw [if_pos hblocked, if_pos (h.isBlocked.1 hblocked)]
  · rw [if_neg hblocked, if_neg fun hg => hblocked (h.isBlocked.2 hg), h.item]

/-- The place of an artifact that can be looked at. -/
theorem destination_of_not_isStopped {t : FileTree} (h : Contents.IsSimple t.item?) {o : Options}
    (hcurrent : ∀ name ∈ o.current, IsName name) {a : Artifact} (ha : IsRelative a)
    (hs : ¬IsStopped t o a.path) :
    destination t o a.path = .ok (place o a) ∧ (pathOf (place o a)).flaw? = none := by
  have hplace : destination t o a.path = .ok (place o a) :=
    (destination_of_isPathOf h hcurrent ha).resolve_left fun he => hs (.inl he)
  refine ⟨hplace, ?_⟩
  by_contra hflaw
  exact hs (.inr ⟨_, hplace, .inl hflaw⟩)

section Run

variable {o : Options} (hcurrent : ∀ name ∈ o.current, IsName name) (hreal : o.dryRun = false)
include hcurrent

/-- **What is passable depends on the files on the way alone.** Files that were filled anew are
still files, so that other artifacts do not change what is passable. -/
theorem isPassable_congr {t t' : FileTree} (h : Contents.IsSimple t.item?)
    (h' : Contents.IsSimple t'.item?) {a : Artifact} (ha : IsRelative a)
    (hblocked : ∀ l, l <+: place o a →
      (Contents.IsBlocked t'.item? l ↔ Contents.IsBlocked t.item? l)) :
    IsPassable t' o a.path ↔
      IsPassable t o a.path := by
  have hsame := destination_congr (o := o) h h' a.path
  have hloc : ∀ loc, destination t o a.path = .ok loc → loc = place o a :=
    fun loc hd => eq_of_destination h hcurrent ha hd
  constructor
  · rintro ⟨loc, hd, hflaw, hlong⟩
    rw [← hsame] at hd
    refine ⟨loc, hd, hflaw, fun above name hp hl => ?_⟩
    exact (hblocked _ (hloc loc hd ▸ hp)).1 (hlong above name hp hl)
  · rintro ⟨loc, hd, hflaw, hlong⟩
    refine ⟨loc, hsame ▸ hd, hflaw, fun above name hp hl => ?_⟩
    exact (hblocked _ (hloc loc hd ▸ hp)).2 (hlong above name hp hl)

/-- A renewal apart from an artifact leaves it as passable as it was. -/
theorem isPassable_of_apart {t t' : FileTree} (h : Contents.IsSimple t.item?)
    (h' : Contents.IsSimple t'.item?) {a : Artifact} (ha : IsRelative a) {r : Renewal}
    (hitem : t'.item? = r.apply t.item?)
    (hr : r.Apart (renewalOf o a)) :
    IsPassable t' o a.path ↔
      IsPassable t o a.path := by
  refine isPassable_congr hcurrent h h' ha fun l hl => ?_
  rw [hitem]
  exact Renewal.isBlocked_apply fun hle => absurd (hle.trans hl) hr.1

/-! ## Passable artifacts -/

include hreal

/-- **A run over passable artifacts renews their files**, and the reports say what was found. Since
the places are apart, each artifact finds what it would have found at the start. -/
theorem runEach_of_isPassable {t : FileTree} (h : Contents.IsSimple t.item?) {as : List Artifact}
    (hrelative : ∀ a ∈ as, IsRelative a)
    (hapart : (as.map (renewalOf o)).Pairwise Renewal.Apart)
    (hwritable : ∀ a ∈ as, IsWritable a) (hp : ∀ a ∈ as, IsPassable t o a.path) :
    ∃ t' : FileTree, runEach o false t as = ⟨t', .ok (as.map (reportOf o t.item?))⟩ ∧
      t'.item? = Renewal.renew (as.map (renewalOf o)) t.item? := by
  induction as generalizing t with
  | nil => exact ⟨t, rfl, rfl⟩
  | cons a as ih =>
    obtain ⟨hfirst, hapart⟩ := List.pairwise_cons.1 hapart
    have ha := hrelative a List.mem_cons_self
    obtain ⟨t₁, r, hfile, hreport, ht₁⟩ :=
      file_of_isPassable h hcurrent ha hreal (hwritable a List.mem_cons_self)
        (hp a List.mem_cons_self)
    have h₁ : Contents.IsSimple t₁.item? := by
      rw [ht₁]
      exact Renewal.isSimple_apply h (by simp [renewal, ha.ne_nil])
    -- The places of the others are apart, so that nothing changes for them.
    have hothers : ∀ b ∈ as, (renewalOf o a).Apart
        (renewalOf o b) :=
      fun b hb => hfirst _ (List.mem_map_of_mem hb)
    have hp₁ : ∀ b ∈ as, IsPassable t₁ o b.path := by
      intro b hb
      have hmem := List.mem_cons_of_mem a hb
      exact (isPassable_of_apart hcurrent h h₁ (hrelative b hmem) ht₁ (hothers b hb)).2 (hp b hmem)
    obtain ⟨t', hrun, ht'⟩ := ih h₁ (fun b hb => hrelative b (List.mem_cons_of_mem _ hb)) hapart
      (fun b hb => hwritable b (List.mem_cons_of_mem _ hb)) hp₁
    refine ⟨t', ?_, ?_⟩
    · have hsame : as.map (reportOf o t₁.item?) =
          as.map (reportOf o t.item?) := by
        refine List.map_congr_left fun b hb => reportOf_congr ?_
        rw [ht₁]
        exact (hothers b hb).sameAt t.item?
      have hsettle : settle false a.path (file t o a).2 = .ok (reportOf o t.item? a) := by
        rw [hfile]
        exact hreport
      rw [runEach_of_ok hsettle, hfile, hrun, hsame]
      rfl
    · rw [ht', ht₁]
      rfl

/-! ## All artifacts -/

omit hcurrent hreal in
/-- A run goes on after an artifact, or stops there. -/
theorem runEach_cons_cases (stopOnError : Bool) (t : FileTree) (a : Artifact)
    (as : List Artifact) :
    (∃ r, settle stopOnError a.path (file t o a).2 = .ok r ∧
        runEach o stopOnError t (a :: as) = (runEach o stopOnError (file t o a).1 as).cons r) ∨
      ∃ e, settle stopOnError a.path (file t o a).2 = .error e ∧
        runEach o stopOnError t (a :: as) = ⟨(file t o a).1, .error e⟩ := by
  cases hsettle : settle stopOnError a.path (file t o a).2 with
  | ok r => exact .inl ⟨r, rfl, runEach_of_ok hsettle as⟩
  | error e => exact .inr ⟨e, rfl, runEach_of_error hsettle as⟩

/-- **A run leaves a tree simple, and its directories where they were.** A run that ends early keeps
them as well. -/
theorem runEach_keeps (stopOnError : Bool) {t : FileTree} (h : Contents.IsSimple t.item?)
    (as : List Artifact) :
    Contents.IsSimple (runEach o stopOnError t as).tree.item? ∧
      ∀ l, t.item? l = some .directory →
        (runEach o stopOnError t as).tree.item? l = some .directory := by
  induction as generalizing t with
  | nil => exact ⟨h, fun l hl => hl⟩
  | cons a as ih =>
    obtain ⟨hsimple, hkept⟩ := file_keeps h hcurrent hreal (a := a)
    rcases runEach_cons_cases stopOnError t a as with ⟨r, -, hrun⟩ | ⟨e, -, hrun⟩
    · obtain ⟨hsimple', hkept'⟩ := ih hsimple
      rw [hrun]
      exact ⟨hsimple', fun l hl => hkept' l (hkept l hl)⟩
    · rw [hrun]
      exact ⟨hsimple, hkept⟩

/-- **A run over artifacts one of which is stopped gives no results.** The failure is a fault of the
file system that is not recorded as a conflict. -/
theorem results_of_isStopped (stopOnError : Bool) {t : FileTree}
    (h : Contents.IsSimple t.item?) {as : List Artifact} {a : Artifact} (ha : a ∈ as)
    (hs : IsStopped t o a.path) :
    ∃ e, (runEach o stopOnError t as).results = .error e := by
  induction as generalizing t with
  | nil => exact absurd ha (by simp)
  | cons b as ih =>
    rcases runEach_cons_cases stopOnError t b as with ⟨r, hsettle, hrun⟩ | ⟨e, -, hrun⟩
    · rcases List.mem_cons.1 ha with rfl | hmem
      · obtain ⟨e, hfile⟩ := file_of_isStopped h hs
        rw [hfile] at hsettle
        exact absurd hsettle (by simp [settle])
      · obtain ⟨hsimple, hkept⟩ := file_keeps h hcurrent hreal (a := b)
        obtain ⟨e, he⟩ := ih hsimple hmem (hs.mono h hsimple hkept)
        exact ⟨e, by simp only [hrun, Outcome.cons, he, Except.map]⟩
    · exact ⟨e, by rw [hrun]⟩

/-- **After a run over artifacts that are not all passable, one of them is stopped.** It has become
so when the way was made up to a name that is too long. -/
theorem exists_isStopped {t : FileTree} (h : Contents.IsSimple t.item?) {as : List Artifact}
    (hrelative : ∀ a ∈ as, IsRelative a)
    (hapart : (as.map (renewalOf o)).Pairwise Renewal.Apart) (hwritable : ∀ a ∈ as, IsWritable a)
    (hp : ¬∀ a ∈ as, IsPassable t o a.path) :
    ∃ a ∈ as, IsStopped (runEach o false t as).tree o a.path := by
  induction as generalizing t with
  | nil => exact absurd (fun a ha => absurd ha (by simp)) hp
  | cons a as ih =>
    obtain ⟨hfirst, hapart⟩ := List.pairwise_cons.1 hapart
    have ha := hrelative a List.mem_cons_self
    have hrest := fun b hb => hrelative b (List.mem_cons_of_mem a hb)
    have hwritten := hwritable a List.mem_cons_self
    have hwritable := fun b hb => hwritable b (List.mem_cons_of_mem a hb)
    obtain ⟨hsimple, hkept⟩ := file_keeps h hcurrent hreal (a := a)
    by_cases hpa : IsPassable t o a.path
    · obtain ⟨t₁, r, hfile, hreport, ht₁⟩ := file_of_isPassable h hcurrent ha hreal hwritten hpa
      rw [hfile] at hsimple
      -- What is not passable still is not, after an artifact that goes elsewhere.
      have hp₁ : ¬∀ b ∈ as, IsPassable t₁ o b.path := by
        intro hall
        refine hp (List.forall_mem_cons.2 ⟨hpa, fun b hb => ?_⟩)
        have hapart := hfirst _ (List.mem_map_of_mem hb)
        exact (isPassable_of_apart hcurrent h hsimple (hrest b hb) ht₁ hapart).1 (hall b hb)
      obtain ⟨b, hb, hs⟩ := ih hsimple hrest hapart hwritable hp₁
      refine ⟨b, List.mem_cons_of_mem _ hb, ?_⟩
      have hsettle : settle false a.path (file t o a).2 =
          .ok (report o.strategy a (base o ++ (Path.ofText a.path).steps) t.item?) := by
        rw [hfile]
        exact hreport
      rw [runEach_of_ok hsettle, hfile]
      exact hs
    · refine ⟨a, List.mem_cons_self, ?_⟩
      have hs := isStopped_of_not_isPassable h hcurrent ha hreal hpa
      rcases runEach_cons_cases false t a as with ⟨r, -, hrun⟩ | ⟨e, -, hrun⟩
      · obtain ⟨hsimple', hkept'⟩ := runEach_keeps hcurrent hreal false hsimple as
        rw [hrun]
        exact hs.mono hsimple hsimple' hkept'
      · rw [hrun]
        exact hs

end Run

end FormScaffold.Sync
