import FormScaffold.Proofs.Sync.Running
import Mathlib.Data.List.Induction

/-! # Turns of a run

A run syncs one artifact after the other, each in the tree that was left by those before it. An
artifact with the path of an earlier one has no turn.

* **`runFrom_append`** — a run over more artifacts goes on from where it was;
* `SomeTurn` — something that happens at the turn of an artifact in a run;
* **`someTurn_concat`** — the turns of a run over one artifact more;
* `run_concat_of_seen`, `run_concat_of_new` — what one artifact more makes of a run. -/

namespace FormScaffold.Sync

/-! ## Runs over more artifacts -/

/-- The texts of the paths after artifacts, when those before them are known. -/
def remember (seen : List (String × String)) : List Artifact → List (String × String)
  | [] => seen
  | a :: as =>
    match seen.lookup a.path with
    | some _ => remember seen as
    | none => remember ((a.path, a.content) :: seen) as

/-- A path is new when it was not known before, and no artifact has it. -/
theorem lookup_remember_eq_none_iff {seen : List (String × String)} {as : List Artifact}
    {path : String} :
    (remember seen as).lookup path = none ↔
      seen.lookup path = none ∧ ∀ a ∈ as, a.path ≠ path := by
  induction as generalizing seen with
  | nil => simp [remember]
  | cons a as ih =>
    rw [remember, List.forall_mem_cons]
    cases hseen : seen.lookup a.path with
    | some content =>
      simp only [ih]
      refine and_congr_right fun hnone => (and_iff_right ?_).symm
      rintro rfl
      rw [hseen] at hnone
      exact absurd hnone (by simp)
    | none =>
      simp only [ih, List.lookup_cons]
      by_cases hpath : path = a.path
      · simp [hpath]
      · rw [beq_eq_false_iff_ne.2 hpath]
        exact and_congr_right fun _ => (and_iff_right (Ne.symm hpath)).symm

/-- Results before those of a run. -/
def Outcome.after (rs : List MergeResult) (x : Outcome) : Outcome :=
  { x with results := x.results.map (rs ++ ·) }

/-- After no results an outcome is as it was. -/
theorem Outcome.after_nil (x : Outcome) : x.after [] = x := by
  rcases x with ⟨t, e | rs⟩ <;> rfl

/-- Results in front of an outcome, one by one. -/
theorem Outcome.cons_after (r : MergeResult) (rs : List MergeResult) (x : Outcome) :
    (x.after rs).cons r = x.after (r :: rs) := by
  rcases x with ⟨t, e | rs'⟩ <;> rfl

section Append

variable {o : Options} {stopOnError : Bool}

/-- **A run goes on from where it was.** The tree and the texts that were seen are all that is
passed on. -/
theorem runFrom_append {t : FileTree} {seen : List (String × String)} {as : List Artifact}
    {rs : List MergeResult} (h : (runFrom o stopOnError t seen as).results = .ok rs)
    (bs : List Artifact) :
    runFrom o stopOnError t seen (as ++ bs) =
      (runFrom o stopOnError (runFrom o stopOnError t seen as).tree (remember seen as) bs).after
        rs := by
  induction as generalizing t seen rs with
  | nil =>
    obtain rfl := Except.ok.inj h
    exact (Outcome.after_nil _).symm
  | cons a as ih =>
    rw [List.cons_append]
    rcases runFrom_cons_ok h with ⟨content, rs', hseen, htree, hrs', rfl⟩ |
      ⟨r, rs', hseen, hsettle, htree, hrs', rfl⟩
    · rw [htree, runFrom_of_seen hseen, ih hrs', remember, hseen, repeated]
      by_cases hcontent : content = a.content
      · rw [if_pos (beq_iff_eq.2 hcontent), if_pos hcontent, List.nil_append]
      · rw [if_neg (by simpa using hcontent), if_neg hcontent, Outcome.cons_after,
          List.singleton_append]
    · rw [htree, runFrom_of_new hseen, hsettle, remember, hseen]
      simp only [ih hrs', Outcome.cons_after]

/-- A run that has ended does not go on. -/
theorem runFrom_append_of_error {t : FileTree} {seen : List (String × String)} {as : List Artifact}
    {e : Failure} (h : (runFrom o stopOnError t seen as).results = .error e)
    (bs : List Artifact) :
    runFrom o stopOnError t seen (as ++ bs) = runFrom o stopOnError t seen as := by
  -- A report in front changes nothing about the error.
  have hcons : ∀ {r : MergeResult} {x : Outcome}, (x.cons r).results = .error e →
      x.results = .error e := by
    rintro r ⟨t, e' | rs⟩ hx
    · exact hx
    · exact absurd hx (by simp [Outcome.cons, Except.map])
  induction as generalizing t seen with
  | nil => exact absurd h (by simp)
  | cons a as ih =>
    rw [List.cons_append]
    cases hseen : seen.lookup a.path with
    | some content =>
      rw [runFrom_of_seen hseen] at h ⊢
      rw [runFrom_of_seen hseen]
      by_cases hcontent : (content == a.content) = true
      · rw [if_pos hcontent] at h ⊢
        rw [if_pos hcontent, ih h]
      · rw [if_neg hcontent] at h ⊢
        rw [if_neg hcontent, ih (hcons h)]
    | none =>
      rw [runFrom_of_new hseen] at h ⊢
      rw [runFrom_of_new hseen]
      cases hsettle : settle stopOnError a.path (file t o a).2 with
      | error e' => rfl
      | ok r =>
        simp only [hsettle] at h ⊢
        rw [ih (hcons h)]

/-- A run from the start goes on with the paths that it has seen. -/
theorem run_append {t before : FileTree} {as : List Artifact} {rs : List MergeResult}
    (h : run t o stopOnError as = ⟨before, .ok rs⟩) (bs : List Artifact) :
    run t o stopOnError (as ++ bs) =
      (runFrom o stopOnError before (remember [] as) bs).after rs := by
  have htree : (runFrom o stopOnError t [] as).tree = before := congrArg Outcome.tree h
  rw [run, runFrom_append (congrArg Outcome.results h), htree]

/-- A run that has ended with an error is not changed by more artifacts. -/
theorem run_append_of_error {t before : FileTree} {as : List Artifact} {e : Failure}
    (h : run t o stopOnError as = ⟨before, .error e⟩) (bs : List Artifact) :
    run t o stopOnError (as ++ bs) = ⟨before, .error e⟩ := by
  rw [run, runFrom_append_of_error (congrArg Outcome.results h)]
  exact h

end Append

/-! ## Turns -/

/-- Something happens at the turn of an artifact in a run: the artifacts before it have other paths
and give results, and the artifact is synced into the tree that they leave. -/
def SomeTurn (t : FileTree) (o : Options) (stopOnError : Bool) (as : List Artifact)
    (Happens : FileTree → Artifact → Prop) : Prop :=
  ∃ front a back before rs, as = front ++ a :: back ∧ (∀ b ∈ front, b.path ≠ a.path) ∧
    run t o stopOnError front = ⟨before, .ok rs⟩ ∧ Happens before a

section Turns

variable {t : FileTree} {o : Options} {stopOnError : Bool} {as : List Artifact}
  {Happens : FileTree → Artifact → Prop}

/-- What happens at a turn happens also when more artifacts follow. -/
theorem SomeTurn.append (h : SomeTurn t o stopOnError as Happens) (bs : List Artifact) :
    SomeTurn t o stopOnError (as ++ bs) Happens := by
  obtain ⟨front, a, back, before, rs, rfl, hturn⟩ := h
  exact ⟨front, a, back ++ bs, before, rs, by simp, hturn⟩

/-- **The turns of a run over one artifact more.** The last artifact has a turn when its path is
new, and the turns before it are those of the shorter run. -/
theorem someTurn_concat {before : FileTree} {rs : List MergeResult}
    (h : run t o stopOnError as = ⟨before, .ok rs⟩) {a : Artifact} :
    SomeTurn t o stopOnError (as ++ [a]) Happens ↔
      SomeTurn t o stopOnError as Happens ∨
        (∀ b ∈ as, b.path ≠ a.path) ∧ Happens before a := by
  constructor
  · rintro ⟨front, b, back, before', rs', hsplit, hnew, hrun, hhappens⟩
    rcases List.eq_nil_or_concat back with rfl | ⟨back, last, rfl⟩
    · -- The turn is that of the last artifact.
      obtain ⟨rfl, hlast⟩ := List.append_inj' hsplit rfl
      obtain rfl := (List.cons.inj hlast).1
      obtain ⟨rfl, -⟩ := Outcome.mk.inj (h.symm.trans hrun)
      exact .inr ⟨hnew, hhappens⟩
    · rw [List.concat_eq_append, ← List.cons_append, ← List.append_assoc] at hsplit
      obtain ⟨rfl, -⟩ := List.append_inj' hsplit rfl
      exact .inl ⟨front, b, back, before', rs', rfl, hnew, hrun, hhappens⟩
  · rintro (hturn | ⟨hnew, hhappens⟩)
    · exact hturn.append [a]
    · exact ⟨as, a, [], before, rs, rfl, hnew, h, hhappens⟩

/-- An artifact with the path of an earlier one is left out, and is a conflict at most. -/
theorem run_concat_of_seen {before : FileTree} {rs : List MergeResult}
    (h : run t o stopOnError as = ⟨before, .ok rs⟩) {a : Artifact}
    (hseen : ¬∀ b ∈ as, b.path ≠ a.path) :
    ∃ more, (∀ r ∈ more, r.status = .conflict) ∧
      run t o stopOnError (as ++ [a]) = ⟨before, .ok (rs ++ more)⟩ := by
  obtain ⟨content, hlookup⟩ : ∃ content, (remember [] as).lookup a.path = some content :=
    Option.ne_none_iff_exists'.1 fun hnone => hseen (lookup_remember_eq_none_iff.1 hnone).2
  rw [run_append h, runFrom_of_seen hlookup]
  by_cases hcontent : (content == a.content) = true
  · rw [if_pos hcontent]
    exact ⟨[], by simp, rfl⟩
  · rw [if_neg hcontent]
    exact ⟨[.ofConflict a.path duplicateReason], by simp [MergeResult.ofConflict], rfl⟩

/-- An artifact with a path of its own is synced after the others. -/
theorem run_concat_of_new {before : FileTree} {rs : List MergeResult}
    (h : run t o stopOnError as = ⟨before, .ok rs⟩) {a : Artifact}
    (hnew : ∀ b ∈ as, b.path ≠ a.path) :
    run t o stopOnError (as ++ [a]) = ⟨(file before o a).1,
      (settle stopOnError a.path (file before o a).2).map fun r => rs ++ [r]⟩ := by
  have hlookup : (remember [] as).lookup a.path = none :=
    lookup_remember_eq_none_iff.2 ⟨rfl, hnew⟩
  rw [run_append h, runFrom_of_new hlookup]
  cases settle stopOnError a.path (file before o a).2 <;> rfl

end Turns

end FormScaffold.Sync
