import FormScaffold.Proofs.Region.Finding

/-! # Nested markers

The scanner keeps one open region. A begin marker in it gives both names a problem, and then nothing
is open: what begins next is read as if it stood outside.

* `Scan.Leaves` — marks of other names leave what holds of a name;
* `Scan.Accounts` — the marks of a name give it a problem or a region;
* **`mem_names_iff`** — when a name has a region;
* `problem_of_encloses` — a name whose markers enclose a region has a problem;
* **`names_of_nested`** — when a region is found among nested markers. -/

namespace FormScaffold.Region

/-- The name on a marker. -/
def Mark.name? : Mark → Option String
  | .begins n => some n
  | .ends n => some n
  | .plain => none

namespace Scan

/-! ## Marks one after the other -/

/-- Marks are read one after the other. -/
theorem read_cons (s : Scan) (m : Mark) (ms : List Mark) :
    s.read (m :: ms) = (s.lineAt m 0 0).read ms := rfl

/-- Marks behind others are read in the state that those left. -/
theorem read_append (s : Scan) (ms ms' : List Mark) :
    s.read (ms ++ ms') = (s.read ms).read ms' := List.foldl_append

/-- Marks keep a scan sound. -/
theorem Sound.read {s : Scan} (h : s.Sound) (ms : List Mark) : (s.read ms).Sound := by
  induction ms generalizing s with
  | nil => exact h
  | cons m ms ih => exact ih (h.lineAt _ _ _)

/-- A problem stays, whatever marks follow. -/
theorem isSome_problem?_read {s : Scan} {n : String} (h : (s.problem? n).isSome = true)
    (ms : List Mark) : ((s.read ms).problem? n).isSome = true := by
  induction ms generalizing s with
  | nil => exact h
  | cons m ms ih => exact ih (isSome_problem?_lineAt h _ _ _)

/-! ## Marks of other names -/

/-- What holds of a name stays as it was, and it is not open. -/
structure Leaves (n : String) (s s' : Scan) : Prop where
  problem : s'.problem? n = s.problem? n
  names : n ∈ s'.names ↔ n ∈ s.names
  begun : n ∈ s'.begun ↔ n ∈ s.begun
  opened : ∀ o, s'.opened = some o → o.name ≠ n

namespace Leaves

variable {n : String} {s s' s'' : Scan}

/-- A state leaves what holds of a name that is not open in it. -/
theorem refl (h : ∀ o, s.opened = some o → o.name ≠ n) : Leaves n s s :=
  ⟨rfl, Iff.rfl, Iff.rfl, h⟩

/-- Two steps that leave what holds of a name leave it together. -/
theorem trans (h : Leaves n s s') (h' : Leaves n s' s'') : Leaves n s s'' :=
  ⟨h'.problem.trans h.problem, h'.names.trans h.names, h'.begun.trans h.begun, h'.opened⟩

/-- A problem of another name leaves what holds of a name. -/
theorem flaw (h : Leaves n s s') {x : String} (hx : x ≠ n) (p : Problem) :
    Leaves n s (s'.flaw x p) := by
  refine h.trans ⟨?_, ?_, Iff.rfl, h.opened⟩
  · rw [problem?_flaw, if_neg fun hn => hx hn.1.symm]
  · rw [names_flaw, List.mem_filter]
    simp [hx.symm]

/-- Closing what is open leaves what holds of a name. -/
theorem close (h : Leaves n s s') : Leaves n s s'.close :=
  ⟨h.problem, h.names, h.begun, by simp⟩

/-- **A mark of another name leaves a name that is not open.** -/
theorem lineAt (h : Leaves n s s') {m : Mark} (hm : m.name? ≠ some n) (a b : Nat) :
    Leaves n s (s'.lineAt m a b) := by
  have hstep := step_lineAt s' m a b
  generalize s'.lineAt m a b = t at hstep ⊢
  have hother : ∀ x, m.name? = some x → x ≠ n := fun x hx heq => hm (heq ▸ hx)
  cases hstep with
  | plain => exact h
  | nested ho | other ho => exact ((h.flaw (h.opened _ ho) _).flaw (hother _ rfl) _).close
  | repeated | unopened => exact h.flaw (hother _ rfl) _
  | @fresh x ho hb =>
    refine ⟨h.problem, h.names, ?_, ?_⟩
    · rw [← h.begun, List.mem_cons, or_iff_right (hother x rfl).symm]
    · rintro o ho'
      obtain rfl : (⟨x, a, b⟩ : Opening) = o := Option.some.inj ho'
      exact hother x rfl
  | flawed => exact h.close
  | @found o ho hp =>
    refine ⟨h.problem, ?_, h.begun, by simp⟩
    rw [← h.names, Scan.names, List.map_append, List.mem_append, ← Scan.names]
    simp [(hother o.name rfl).symm]

/-- **Marks of other names leave what holds of a name.** -/
theorem read (h : Leaves n s s') {ms : List Mark} (hms : ∀ m ∈ ms, m.name? ≠ some n) :
    Leaves n s (s'.read ms) := by
  induction ms generalizing s' with
  | nil => exact h
  | cons m ms ih =>
    obtain ⟨hm, hms⟩ := List.forall_mem_cons.1 hms
    exact ih (h.lineAt hm 0 0) hms

/-- The end of the text leaves what holds of a name that is not open. -/
theorem finish (h : Leaves n s s') : Leaves n s s'.finish := by
  cases ho : s'.opened with
  | none => rwa [finish_of_closed ho]
  | some o =>
    rw [finish_of_opened ho]
    exact (h.flaw (h.opened o ho) _).close

end Leaves

/-! ## Marks of a name -/

/-- A name that began before and is not open has a problem after one more of its marks. -/
theorem isSome_problem?_of_begun {s : Scan} {n : String} (hbegun : n ∈ s.begun)
    (hopened : ∀ o, s.opened = some o → o.name ≠ n) {m : Mark} (hm : m.name? = some n)
    (a b : Nat) : ((s.lineAt m a b).problem? n).isSome = true := by
  have hstep := step_lineAt s m a b
  generalize s.lineAt m a b = t at hstep ⊢
  cases hstep with
  | plain => exact absurd hm (by simp [Mark.name?])
  | nested | repeated | unopened | other =>
    obtain rfl := Option.some.inj hm
    exact isSome_problem?_flaw_self _ _ _
  | fresh ho hb => exact absurd hbegun (Option.some.inj hm ▸ hb)
  | flawed ho | found ho => exact absurd (Option.some.inj hm) (hopened _ ho)

/-- A name that began before and is not open has a problem after marks among which is one of its
own. -/
theorem isSome_problem?_of_mem {s : Scan} {n : String} (hbegun : n ∈ s.begun)
    (hopened : ∀ o, s.opened = some o → o.name ≠ n) {ms : List Mark}
    (h : ∃ m ∈ ms, m.name? = some n) : ((s.read ms).problem? n).isSome = true := by
  induction ms generalizing s with
  | nil => exact absurd h (by simp)
  | cons m ms ih =>
    rw [read_cons]
    by_cases hm : m.name? = some n
    · exact isSome_problem?_read (isSome_problem?_of_begun hbegun hopened hm 0 0) ms
    · have hleaves := (Leaves.refl hopened).lineAt hm 0 0
      rw [List.exists_mem_cons_iff] at h
      exact ih (hleaves.begun.2 hbegun) hleaves.opened (h.resolve_left hm)

/-- A name that began keeps its place: it has a problem, or a region, or is open. -/
def Accounts (n : String) (s : Scan) : Prop :=
  (s.problem? n).isSome = true ∨ n ∈ s.names ∨ ∃ o, s.opened = some o ∧ o.name = n

/-- A name that is open stays accounted for. -/
theorem accounts_lineAt_of_opened {s : Scan} {o : Opening} (ho : s.opened = some o) (m : Mark)
    (a b : Nat) : Accounts o.name (s.lineAt m a b) := by
  have hsame : ∀ o', s.opened = some o' → o = o' := fun o' ho' => Option.some.inj (ho ▸ ho')
  have hopen : s.opened ≠ none := Option.ne_none_iff_exists'.2 ⟨o, ho⟩
  have hstep := step_lineAt s m a b
  generalize s.lineAt m a b = t at hstep ⊢
  cases hstep with
  | plain => exact .inr (.inr ⟨o, ho, rfl⟩)
  | nested ho' | other ho' =>
    obtain rfl := hsame _ ho'
    exact .inl (isSome_problem?_flaw (isSome_problem?_flaw_self _ _ _) _ _)
  | repeated hnone | fresh hnone | unopened hnone => exact absurd hnone hopen
  | flawed ho' hp =>
    obtain rfl := hsame _ ho'
    exact .inl hp
  | found ho' =>
    obtain rfl := hsame _ ho'
    exact .inr (.inl (by simp [names]))

/-- **A mark accounts for its name.** It gives the name a problem, opens it, or completes its
region. -/
theorem accounts_lineAt_of_named {s : Scan} {n : String} {m : Mark} (hm : m.name? = some n)
    (a b : Nat) : Accounts n (s.lineAt m a b) := by
  have hstep := step_lineAt s m a b
  generalize s.lineAt m a b = t at hstep ⊢
  cases hstep with
  | plain => exact absurd hm (by simp [Mark.name?])
  | nested | repeated | unopened | other =>
    obtain rfl := Option.some.inj hm
    exact .inl (isSome_problem?_flaw_self _ _ _)
  | fresh => exact .inr (.inr ⟨_, rfl, Option.some.inj hm⟩)
  | flawed ho hp =>
    obtain rfl := Option.some.inj hm
    exact .inl hp
  | found =>
    obtain rfl := Option.some.inj hm
    exact .inr (.inl (by simp [names]))

namespace Accounts

variable {n : String} {s : Scan}

/-- **A mark of another name keeps a name accounted for.** It may close the name, which is then a
problem of it. -/
theorem lineAt_of_other (h : Accounts n s) {m : Mark} (hm : m.name? ≠ some n) (a b : Nat) :
    Accounts n (s.lineAt m a b) := by
  by_cases hopen : ∃ o, s.opened = some o ∧ o.name = n
  · obtain ⟨o, ho, rfl⟩ := hopen
    exact accounts_lineAt_of_opened ho m a b
  · have hleaves := (Leaves.refl fun o ho hn => hopen ⟨o, ho, hn⟩).lineAt hm a b
    rcases h with hproblem | hname | hopened
    · exact .inl (by rwa [hleaves.problem])
    · exact .inr (.inl (hleaves.names.2 hname))
    · exact absurd hopened hopen

/-- Marks keep a name accounted for, its own ones and those of others. -/
theorem read (h : Accounts n s) (ms : List Mark) : Accounts n (s.read ms) := by
  induction ms generalizing s with
  | nil => exact h
  | cons m ms ih =>
    rw [read_cons]
    by_cases hm : m.name? = some n
    · exact ih (accounts_lineAt_of_named hm 0 0)
    · exact ih (h.lineAt_of_other hm 0 0)

/-- In the end a name has a problem or a region. -/
theorem finish (h : Accounts n s) : (s.finish.problem? n).isSome = true ∨ n ∈ s.finish.names := by
  by_cases hopen : ∃ o, s.opened = some o ∧ o.name = n
  · obtain ⟨o, ho, rfl⟩ := hopen
    rw [finish_of_opened ho]
    exact .inl (isSome_problem?_flaw_self _ _ _)
  · have hleaves := (Leaves.refl fun o ho hn => hopen ⟨o, ho, hn⟩).finish
    rcases h with hproblem | hname | hopened
    · exact .inl (by rwa [hleaves.problem])
    · exact .inr (hleaves.names.2 hname)
    · exact absurd hopened hopen

end Accounts

/-- The marks of a text account for its names. -/
theorem accounts_read_of_mem {s : Scan} {n : String} {ms : List Mark}
    (h : ∃ m ∈ ms, m.name? = some n) : Accounts n (s.read ms) := by
  obtain ⟨m, hm, hname⟩ := h
  obtain ⟨front, back, rfl⟩ := List.append_of_mem hm
  rw [read_append, read_cons]
  exact (accounts_lineAt_of_named hname 0 0).read back

/-- A name that was found has no problem. -/
theorem Sound.problem?_of_mem_names {s : Scan} (h : s.Sound) {n : String} (hn : n ∈ s.names) :
    s.problem? n = none := by
  obtain ⟨r, hr, rfl⟩ := List.mem_map.1 hn
  exact h.clean r hr

/-- A name that was found has begun. -/
theorem Sound.mem_begun_of_mem_names {s : Scan} (h : s.Sound) {n : String} (hn : n ∈ s.names) :
    n ∈ s.begun := by
  obtain ⟨r, hr, rfl⟩ := List.mem_map.1 hn
  exact h.begun r hr

/-- A name without a problem at the end had none before. -/
theorem problem?_eq_none_of_read {s : Scan} {n : String} (ms : List Mark)
    (h : (s.read ms).finish.problem? n = none) : s.problem? n = none := by
  by_contra hne
  have hsome := isSome_problem?_finish
    (isSome_problem?_read (Option.isSome_iff_ne_none.2 hne) ms)
  rw [h] at hsome
  exact absurd hsome (by decide)

/-- The two marks of a region are read. -/
theorem lineAt_lineAt_of_fresh {s : Scan} {n : String} (hopened : s.opened = none)
    (hnew : n ∉ s.begun) (hclean : s.problem? n = none) :
    (s.lineAt (.begins n) 0 0).lineAt (.ends n) 0 0 =
      ⟨s.regions ++ [⟨n, 0, 0, 0, 0⟩], s.problems, n :: s.begun, none⟩ := by
  have hclean' : Scan.problem? ⟨s.regions, s.problems, n :: s.begun, some ⟨n, 0, 0⟩⟩ n = none :=
    hclean
  show (s.beginAt n 0 0).endAt n 0 0 = _
  rw [beginAt_of_fresh hopened hnew, endAt_of_clean (o := ⟨n, 0, 0⟩) rfl hclean']

/-- A region is found where its marks stand together, no other mark names it, and nothing is open
before them. -/
theorem mem_names_of_marks {before after : List Mark} {n : String}
    (hnames : ∀ m ∈ before ++ after, m.name? ≠ some n)
    (hopened : (empty.read before).opened = none) :
    n ∈ (empty.read (before ++ .begins n :: .ends n :: after)).finish.names := by
  obtain ⟨hbefore, hafter⟩ := List.forall_mem_append.1 hnames
  have hfront := (Leaves.refl (n := n) (s := empty) (by simp [empty])).read hbefore
  have hpair := lineAt_lineAt_of_fresh hopened (mt hfront.begun.1 (by simp [empty]))
    (hfront.problem.trans rfl)
  rw [read_append, read_cons, read_cons, hpair]
  have hback := ((Leaves.refl (n := n) (s := ⟨(empty.read before).regions ++ [⟨n, 0, 0, 0, 0⟩],
    (empty.read before).problems, n :: (empty.read before).begun, none⟩) (by simp)).read
      hafter).finish
  refine hback.names.2 ?_
  simp [names]

/-- A region that is found is named by no other mark, and nothing is open before its marks. -/
theorem of_mem_names {before after : List Mark} {n : String}
    (h : n ∈ (empty.read (before ++ .begins n :: .ends n :: after)).finish.names) :
    (∀ m ∈ before ++ after, m.name? ≠ some n) ∧ (empty.read before).opened = none := by
  have hclean := (sound_empty.read _).finish.problem?_of_mem_names h
  rw [read_append, read_cons, read_cons] at hclean
  have hbegins := problem?_eq_none_of_read (.ends n :: after) hclean
  obtain ⟨hopened, hnew⟩ := opened_of_clean hbegins
  have hbefore : (empty.read before).problem? n = none :=
    problem?_eq_none_of_read (.begins n :: .ends n :: after) hclean
  refine ⟨List.forall_mem_append.2 ⟨fun m hm hname => ?_, fun m hm hname => ?_⟩, hopened⟩
  · -- A name that was marked before has a problem, or began.
    rcases accounts_read_of_mem ⟨m, hm, hname⟩ with hproblem | hmem | ⟨o, ho, -⟩
    · rw [hbefore] at hproblem
      exact absurd hproblem (by decide)
    · exact hnew ((sound_empty.read before).mem_begun_of_mem_names hmem)
    · rw [hopened] at ho
      exact absurd ho (by simp)
  · rw [lineAt_lineAt_of_fresh hopened hnew hbefore] at hclean
    have hproblem := isSome_problem?_finish (isSome_problem?_of_mem
      (s := ⟨(empty.read before).regions ++ [⟨n, 0, 0, 0, 0⟩], (empty.read before).problems,
        n :: (empty.read before).begun, none⟩) List.mem_cons_self (by simp) ⟨m, hm, hname⟩)
    rw [hclean] at hproblem
    exact absurd hproblem (by decide)

/-- A region that was opened, and then neither ended nor is open any more, has a problem. -/
theorem isSome_problem?_of_left {s : Scan} {o : Opening} (ho : s.opened = some o) {ms : List Mark}
    (hms : .ends o.name ∉ ms) (hopened : (s.read ms).opened ≠ some o) :
    ((s.read ms).problem? o.name).isSome = true := by
  induction ms with
  | nil => exact absurd ho hopened
  | cons m ms ih =>
    rw [List.mem_cons, not_or] at hms
    obtain ⟨hm, hms⟩ := hms
    rw [read_cons] at hopened ⊢
    cases m with
    | plain => exact ih hms hopened
    | begins x =>
      refine isSome_problem?_read ?_ ms
      show ((s.beginAt x 0 0).problem? o.name).isSome = true
      -- Both names have a problem from here on: the one that begins, and the open one.
      rw [beginAt_of_opened ho, problem?_close]
      exact isSome_problem?_flaw (isSome_problem?_flaw_self _ _ _) _ _
    | ends x =>
      have hx : x ≠ o.name := fun heq => hm (heq ▸ rfl)
      refine isSome_problem?_read ?_ ms
      show ((s.endAt x 0 0).problem? o.name).isSome = true
      -- Another name ends, so that the open one is never closed.
      rw [endAt_of_other ho hx, problem?_close]
      exact isSome_problem?_flaw (isSome_problem?_flaw_self _ _ _) _ _

/-- A begin marker is open after it, or its name has a problem. -/
theorem opened_or_problem_beginAt (s : Scan) (n : String) (a b : Nat) :
    (s.beginAt n a b).opened = some ⟨n, a, b⟩ ∨ ((s.beginAt n a b).problem? n).isSome = true := by
  cases ho : s.opened with
  | some o =>
    rw [beginAt_of_opened ho]
    exact .inr (isSome_problem?_flaw_self _ _ _)
  | none =>
    by_cases hn : n ∈ s.begun
    · rw [beginAt_of_begun ho hn]
      exact .inr (isSome_problem?_flaw_self _ _ _)
    · rw [beginAt_of_fresh ho hn]
      exact .inl rfl

end Scan

/-! ## Nested markers -/

/-- The markers of `n` stand between a begin marker of `o` and the next end marker of `o`. -/
def Encloses (ms : List Mark) (o n : String) : Prop :=
  ∃ before inside after, ms = before ++ .begins o :: (inside ++ .ends o :: after) ∧
    .ends o ∉ inside ∧ .begins n ∈ inside ∧ .ends n ∈ inside

variable (text : List Char)

/-- The names of the regions of a text, in terms of its marks. -/
theorem mem_names_iff_read {n : String} :
    n ∈ names text ↔ n ∈ (Scan.empty.read (marks (Text.lines text))).finish.names := by
  rw [names, (alike_scan text).names]

/-- The problems of the names of a text, in terms of its marks. -/
theorem problem?_scan (n : String) : (scan text).problem? n =
    (Scan.empty.read (marks (Text.lines text))).finish.problem? n :=
  (alike_scan text).problem? n

/-- **When a name has a region.** There is one begin marker, one end marker behind it, no marker
between them, and none of the name elsewhere; and nothing is open where it begins. -/
theorem mem_names_iff {n : String} :
    n ∈ names text ↔ ∃ before after,
      marks (Text.lines text) = before ++ .begins n :: .ends n :: after ∧
        (∀ m ∈ before ++ after, m.name? ≠ some n) ∧ (Scan.empty.read before).opened = none := by
  constructor
  · intro h
    obtain ⟨l, i, c, ⟨hl, hc, hi⟩, ⟨front, back, hlines⟩, -⟩ := exists_within_of_mem_names h
    have hmarks : marks (Text.lines text) =
        marks front ++ .begins n :: .ends n :: marks back := by
      rw [← hlines, Piece.lines_region, marks_append, marks_append,
        marks_cons_of_marker (isMarkerLine_of_begins hl), hl, marks_append,
        marks_eq_nil_iff.2 hi, marks_cons_of_marker (isMarkerLine_of_ends hc), hc]
      simp
    refine ⟨_, _, hmarks, ?_⟩
    rw [mem_names_iff_read, hmarks] at h
    exact Scan.of_mem_names h
  · rintro ⟨before, after, hmarks, hnames, hopened⟩
    rw [mem_names_iff_read, hmarks]
    exact Scan.mem_names_of_marks hnames hopened

/-- A name whose markers enclose a region has a problem. -/
theorem problem_of_encloses {o n : String} (h : n ∈ names text)
    (henc : Encloses (marks (Text.lines text)) o n) : ((scan text).problem? o).isSome = true := by
  obtain ⟨before, after, hmarks, hnames, hopened⟩ := (mem_names_iff text).1 h
  obtain ⟨outside, inside, rest, hsplit, hends, hbegins, -⟩ := henc
  obtain ⟨front, back, rfl⟩ := List.append_of_mem hbegins
  have hbegins : Mark.begins n ∉ before := fun hmem =>
    hnames _ (List.mem_append_left _ hmem) rfl
  have hlater : Mark.begins n ∉ Mark.ends n :: after := by
    rw [List.mem_cons, not_or]
    exact ⟨by simp, fun hmem => hnames _ (List.mem_append_right _ hmem) rfl⟩
  -- The one begin marker of the name stands after the markers that follow the outer one.
  have hfront : outside ++ .begins o :: front = before := by
    have heq : before ++ .begins n :: .ends n :: after =
        (outside ++ .begins o :: front) ++ .begins n :: (back ++ .ends o :: rest) := by
      rw [← hmarks, hsplit]
      simp
    exact ((List.append_cons_inj_of_notMem hbegins hlater).1 heq).1.symm
  rw [problem?_scan, hmarks, Scan.read_append]
  refine Scan.isSome_problem?_finish (Scan.isSome_problem?_read ?_ _)
  rw [← hfront, Scan.read_append, Scan.read_cons] at hopened ⊢
  rcases Scan.opened_or_problem_beginAt (Scan.empty.read outside) o 0 0 with hopen | hproblem
  · have hstays : ((Scan.beginAt (Scan.empty.read outside) o 0 0).read front).opened ≠
        some ⟨o, 0, 0⟩ := by
      intro heq
      exact absurd (hopened.symm.trans heq) (by simp)
    exact Scan.isSome_problem?_of_left hopen
      (fun hmem => hends (List.mem_append_left _ hmem)) hstays
  · exact Scan.isSome_problem?_read hproblem front

/-- A begin marker where a region is open gives both names a problem. -/
theorem problem_of_opened {before after : List Mark} {n : String} {o : Opening}
    (hmarks : marks (Text.lines text) = before ++ .begins n :: after)
    (hopened : (Scan.empty.read before).opened = some o) :
    ((scan text).problem? n).isSome = true ∧ ((scan text).problem? o.name).isSome = true := by
  have hboth : (((Scan.empty.read before).lineAt (.begins n) 0 0).problem? n).isSome = true ∧
      (((Scan.empty.read before).lineAt (.begins n) 0 0).problem? o.name).isSome = true := by
    rw [Scan.lineAt, Scan.beginAt_of_opened hopened, Scan.problem?_close, Scan.problem?_close]
    exact ⟨Scan.isSome_problem?_flaw_self _ _ _,
      Scan.isSome_problem?_flaw (Scan.isSome_problem?_flaw_self _ _ _) _ _⟩
  rw [problem?_scan, problem?_scan, hmarks, Scan.read_append, Scan.read_cons]
  exact ⟨Scan.isSome_problem?_finish (Scan.isSome_problem?_read hboth.1 after),
    Scan.isSome_problem?_finish (Scan.isSome_problem?_read hboth.2 after)⟩

/-- **When a region is found among nested markers.** A name has a region if and only if its markers
stand together, no other marker names it, and no region is open before them. Every name on a marker
has a region or a problem. Where a region is open, a begin marker gives its own name and that of
the region a problem; and a name whose markers enclose a region has a problem and no region. -/
theorem names_of_nested :
    (∀ n, n ∈ names text ↔ ∃ before after,
      marks (Text.lines text) = before ++ .begins n :: .ends n :: after ∧
        (∀ m ∈ before ++ after, m.name? ≠ some n) ∧ (Scan.empty.read before).opened = none) ∧
    (∀ n, (∃ m ∈ marks (Text.lines text), m.name? = some n) →
      (n ∈ names text ↔ (scan text).problem? n = none)) ∧
    (∀ before after n o, marks (Text.lines text) = before ++ .begins n :: after →
      (Scan.empty.read before).opened = some o →
        ((scan text).problem? n).isSome = true ∧ ((scan text).problem? o.name).isSome = true) ∧
    ∀ o n, n ∈ names text → Encloses (marks (Text.lines text)) o n →
      ((scan text).problem? o).isSome = true ∧ o ∉ names text := by
  have hclean : ∀ n, n ∈ names text → (scan text).problem? n = none :=
    fun n => (sound_scan text).problem?_of_mem_names
  refine ⟨fun n => mem_names_iff text, fun n hmark => ⟨hclean n, fun hnone => ?_⟩,
    fun before after n o => problem_of_opened text, fun o n h henc => ?_⟩
  · have haccounts := (Scan.accounts_read_of_mem (s := Scan.empty) hmark).finish
    rw [← problem?_scan, ← mem_names_iff_read, hnone] at haccounts
    exact haccounts.resolve_left (by decide)
  · have hproblem := problem_of_encloses text h henc
    refine ⟨hproblem, fun hmem => ?_⟩
    rw [hclean o hmem] at hproblem
    exact absurd hproblem (by decide)

/-- Three regions, each inside the one before. -/
def nestedText : List Char :=
  ("// >>> doctype-ui:begin outer\n// >>> doctype-ui:begin middle\n" ++
    "// >>> doctype-ui:begin inner\n// <<< doctype-ui:end inner\n" ++
    "// <<< doctype-ui:end middle\n// <<< doctype-ui:end outer\n").toList

/-- **The innermost of three nested regions is found**: the marker before it closed the outer one.
So a region can be found although its markers are enclosed by others. -/
theorem names_of_nested_innermost :
    "inner" ∈ names nestedText ∧ Encloses (marks (Text.lines nestedText)) "outer" "inner" ∧
      "outer" ∉ names nestedText := by
  have hmarks : marks (Text.lines nestedText) =
      [.begins "outer", .begins "middle", .begins "inner", .ends "inner", .ends "middle",
        .ends "outer"] := by decide +kernel
  obtain ⟨hnames, -, -, hencloses⟩ := names_of_nested nestedText
  have hinner : "inner" ∈ names nestedText :=
    (hnames "inner").2 ⟨[.begins "outer", .begins "middle"], [.ends "middle", .ends "outer"],
      hmarks,
      by decide, by decide +kernel⟩
  have houter : Encloses (marks (Text.lines nestedText)) "outer" "inner" :=
    ⟨[], [.begins "middle", .begins "inner", .ends "inner", .ends "middle"], [], hmarks,
      by decide, by decide, by decide⟩
  exact ⟨hinner, houter, (hencloses "outer" "inner" hinner houter).2⟩

end FormScaffold.Region
