import FormScaffold.Proofs.Region.Pieces

/-! # What scanning finds

The scanner reads line after line and keeps places, names and problems. Its result is put in terms
of the pieces of the text:

* **`Scan.step_lineAt`** — what a line can do, and when;
* **`Scan.Sound`** — what holds of the scanner after every line: its regions have names of their
  own, were begun, and have no problem;
* `isSome_problem?_lines` — a problem stays;
* **`regions_scan`** — the regions that scanning finds are those of the pieces, in their order, when
  the names without a problem are the clean ones. -/

namespace FormScaffold.Region

namespace Scan

/-! ## One step of the scanner -/

/-- A name with a flaw loses the regions that it had. -/
@[simp] theorem regions_flaw (s : Scan) (n : String) (p : Problem) :
    (s.flaw n p).regions = s.regions.filter (·.name != n) := rfl

/-- A flaw does not change which names were begun. -/
@[simp] theorem begun_flaw (s : Scan) (n : String) (p : Problem) :
    (s.flaw n p).begun = s.begun := rfl

/-- A flaw does not close the region that is open. -/
@[simp] theorem opened_flaw (s : Scan) (n : String) (p : Problem) :
    (s.flaw n p).opened = s.opened := rfl

/-- Closing a region keeps the regions that are complete. -/
@[simp] theorem regions_close (s : Scan) : s.close.regions = s.regions := rfl

/-- Closing a region does not change which names were begun. -/
@[simp] theorem begun_close (s : Scan) : s.close.begun = s.begun := rfl

/-- Nothing is open after the open region was closed. -/
@[simp] theorem opened_close (s : Scan) : s.close.opened = none := rfl

/-- Closing a region does not change what is wrong with which name. -/
@[simp] theorem problem?_close (s : Scan) (m : String) : s.close.problem? m = s.problem? m := rfl

/-- A problem is noted for a name that has none. -/
theorem problem?_flaw (s : Scan) (n : String) (p : Problem) (m : String) :
    (s.flaw n p).problem? m =
      if m = n ∧ s.problem? n = none then some p else s.problem? m := by
  unfold flaw
  cases hn : s.problem? n with
  | some q => simp [problem?]
  | none =>
    by_cases hm : m = n
    · subst hm
      have hfind : s.problems.find? (·.1 == m) = none := by
        simpa [problem?] using hn
      simp [problem?, List.find?_append, hfind]
    · have hne : (n == m) = false := beq_eq_false_iff_ne.2 (Ne.symm hm)
      simp [problem?, List.find?_append, hm, hne]

/-- A name has a problem once one was noted. -/
theorem isSome_problem?_flaw_self (s : Scan) (n : String) (p : Problem) :
    ((s.flaw n p).problem? n).isSome = true := by
  rw [problem?_flaw]
  cases h : s.problem? n <;> simp

/-- Noting a problem takes none away. -/
theorem isSome_problem?_flaw {s : Scan} {m : String} (h : (s.problem? m).isSome = true)
    (n : String) (p : Problem) : ((s.flaw n p).problem? m).isSome = true := by
  rw [problem?_flaw]
  split
  · rfl
  · exact h

/-- A region that begins in another one is a flaw of both, and the open one is given up. -/
theorem beginAt_of_opened {s : Scan} {o : Opening} (h : s.opened = some o) (n : String)
    (a b : Nat) :
    s.beginAt n a b = ((s.flaw o.name (.holds n o.name)).flaw n (.inside o.name)).close := by
  simp [beginAt, h]

/-- A name that begins again, with nothing open, is a flaw. -/
theorem beginAt_of_begun {s : Scan} (h : s.opened = none) {n : String} (hn : n ∈ s.begun)
    (a b : Nat) : s.beginAt n a b = s.flaw n .repeated := by
  simp [beginAt, h, hn]

/-- A name that begins for the first time, with nothing open, is open from there on. -/
theorem beginAt_of_fresh {s : Scan} (h : s.opened = none) {n : String} (hn : n ∉ s.begun)
    (a b : Nat) :
    s.beginAt n a b = { s with begun := n :: s.begun, opened := some ⟨n, a, b⟩ } := by
  simp [beginAt, h, hn]

/-- An end with nothing open is a flaw of its name. -/
theorem endAt_of_closed {s : Scan} (h : s.opened = none) (n : String) (a b : Nat) :
    s.endAt n a b = s.flaw n .unopened := by
  simp [endAt, h]

/-- An end of another name is a flaw of both names, and the open region is given up. -/
theorem endAt_of_other {s : Scan} {o : Opening} (h : s.opened = some o) {n : String}
    (hn : n ≠ o.name) (a b : Nat) :
    s.endAt n a b = ((s.flaw o.name (.closedBy n)).flaw n .unopened).close := by
  simp [endAt, h, hn]

/-- The end of a region whose name has a flaw closes it without giving a region. -/
theorem endAt_of_flawed {s : Scan} {o : Opening} (h : s.opened = some o)
    (hp : (s.problem? o.name).isSome = true) (a b : Nat) : s.endAt o.name a b = s.close := by
  simp [endAt, h, hp]

/-- The end of a region whose name has no flaw gives the region, from its begin to its end. -/
theorem endAt_of_clean {s : Scan} {o : Opening} (h : s.opened = some o)
    (hp : s.problem? o.name = none) (a b : Nat) :
    s.endAt o.name a b =
      { s with
        regions := s.regions ++ [⟨o.name, o.start, o.innerStart, a, b⟩]
        opened := none } := by
  simp [endAt, h, hp]

/-- What a line from `a` to `b` does to what was found before it. -/
inductive Step (s : Scan) (a b : Nat) : Mark → Scan → Prop
  /-- It marks nothing. -/
  | plain : Step s a b .plain s
  /-- A region begins where another one is open. -/
  | nested {n : String} {o : Opening} (opened : s.opened = some o) :
      Step s a b (.begins n) ((s.flaw o.name (.holds n o.name)).flaw n (.inside o.name)).close
  /-- A region begins a second time. -/
  | repeated {n : String} (opened : s.opened = none) (begun : n ∈ s.begun) :
      Step s a b (.begins n) (s.flaw n .repeated)
  /-- A region begins. -/
  | fresh {n : String} (opened : s.opened = none) (begun : n ∉ s.begun) :
      Step s a b (.begins n) { s with begun := n :: s.begun, opened := some ⟨n, a, b⟩ }
  /-- A region ends where none is open. -/
  | unopened {n : String} (opened : s.opened = none) :
      Step s a b (.ends n) (s.flaw n .unopened)
  /-- A region ends where another one is open. -/
  | other {n : String} {o : Opening} (opened : s.opened = some o) (differs : n ≠ o.name) :
      Step s a b (.ends n) ((s.flaw o.name (.closedBy n)).flaw n .unopened).close
  /-- The open region ends, and its name has a problem. -/
  | flawed {o : Opening} (opened : s.opened = some o)
      (problem : (s.problem? o.name).isSome = true) : Step s a b (.ends o.name) s.close
  /-- The open region ends and is found. -/
  | found {o : Opening} (opened : s.opened = some o) (problem : s.problem? o.name = none) :
      Step s a b (.ends o.name)
        { s with
          regions := s.regions ++ [⟨o.name, o.start, o.innerStart, a, b⟩]
          opened := none }

/-- **A line does one of these.** There are eight cases, by what the line marks, what is open, and
what is known of the name. Later lemmas split along them and do not look into the scanner again. -/
theorem step_lineAt (s : Scan) (mark : Mark) (a b : Nat) : Step s a b mark (s.lineAt mark a b) := by
  cases mark with
  | plain => exact .plain
  | begins n =>
    show Step s a b (.begins n) (s.beginAt n a b)
    cases ho : s.opened with
    | some o =>
      rw [beginAt_of_opened ho]
      exact .nested ho
    | none =>
      by_cases hn : n ∈ s.begun
      · rw [beginAt_of_begun ho hn]
        exact .repeated ho hn
      · rw [beginAt_of_fresh ho hn]
        exact .fresh ho hn
  | ends n =>
    show Step s a b (.ends n) (s.endAt n a b)
    cases ho : s.opened with
    | none =>
      rw [endAt_of_closed ho]
      exact .unopened ho
    | some o =>
      by_cases hn : n = o.name
      · subst hn
        -- An end of the open name closes a region, unless the name has had a problem.
        cases hp : s.problem? o.name with
        | some q =>
          have hflawed : (s.problem? o.name).isSome = true := by rw [hp, Option.isSome_some]
          rw [endAt_of_flawed ho hflawed]
          exact .flawed ho hflawed
        | none =>
          rw [endAt_of_clean ho hp]
          exact .found ho hp
      · rw [endAt_of_other ho hn]
        exact .other ho hn

/-- Lines are read one by one, each from the offset where the one before it ended. -/
theorem lines_cons (s : Scan) (offset : Nat) (l : List Char) (ls : List (List Char)) :
    s.lines offset (l :: ls) =
      (s.lineAt (Mark.ofLine l) offset (offset + l.length)).lines (offset + l.length) ls := rfl

/-- Plain lines only move the offset. -/
theorem lines_plain (s : Scan) (offset : Nat) {inner : List (List Char)}
    (h : ∀ l ∈ inner, isMarkerLine l = false) (rest : List (List Char)) :
    s.lines offset (inner ++ rest) = s.lines (offset + inner.flatten.length) rest := by
  induction inner generalizing offset with
  | nil => simp
  | cons l inner ih =>
    have hl : Mark.ofLine l = .plain := isMarkerLine_eq_false.1 (h l List.mem_cons_self)
    rw [List.cons_append, lines_cons, hl]
    simp only [lineAt]
    rw [ih _ fun m hm => h m (List.mem_cons_of_mem _ hm), List.flatten_cons, List.length_append,
      Nat.add_assoc]

/-- A marked region of a name that is new and has no problem is found. -/
theorem lines_region {s : Scan} (hopened : s.opened = none) {n : String} (hnew : n ∉ s.begun)
    (hclean : s.problem? n = none) {o c : List Char} {i : List (List Char)}
    (h : (Piece.region n o i c).IsMarked) (offset : Nat) (rest : List (List Char)) :
    s.lines offset (o :: (i ++ c :: rest)) =
      Scan.lines ⟨s.regions ++ [⟨n, offset, offset + o.length, offset + o.length + i.flatten.length,
          offset + o.length + i.flatten.length + c.length⟩], s.problems, n :: s.begun, none⟩
        (offset + o.length + i.flatten.length + c.length) rest := by
  obtain ⟨ho, hc, hi⟩ := h
  have hclean' : Scan.problem? ⟨s.regions, s.problems, n :: s.begun,
      some ⟨n, offset, offset + o.length⟩⟩ n = none := hclean
  rw [lines_cons, ho, lineAt, beginAt_of_fresh hopened hnew, lines_plain _ _ hi, lines_cons, hc,
    lineAt, endAt_of_clean (o := ⟨n, offset, offset + o.length⟩) rfl hclean']

/-! ## Problems stay -/

/-- A flaw stays a flaw, whatever the next line is. -/
theorem isSome_problem?_lineAt {s : Scan} {m : String} (h : (s.problem? m).isSome = true)
    (mark : Mark) (a b : Nat) : ((s.lineAt mark a b).problem? m).isSome = true := by
  have hstep := step_lineAt s mark a b
  generalize s.lineAt mark a b = t at hstep ⊢
  cases hstep with
  | plain | fresh | flawed | found => exact h
  | nested | other => exact isSome_problem?_flaw (isSome_problem?_flaw h _ _) _ _
  | repeated | unopened => exact isSome_problem?_flaw h _ _

/-- A flaw stays a flaw, whatever lines follow. -/
theorem isSome_problem?_lines {s : Scan} {m : String} (h : (s.problem? m).isSome = true)
    (offset : Nat) (ls : List (List Char)) : ((s.lines offset ls).problem? m).isSome = true := by
  induction ls generalizing s offset with
  | nil => exact h
  | cons l ls ih => exact ih (isSome_problem?_lineAt h _ _ _) _

/-- Nothing is left to do at the end of a text when no region is open. -/
theorem finish_of_closed {s : Scan} (h : s.opened = none) : s.finish = s := by
  simp [finish, h]

/-- A region that is open at the end of a text is a flaw of its name. -/
theorem finish_of_opened {s : Scan} {o : Opening} (h : s.opened = some o) :
    s.finish = (s.flaw o.name .unclosed).close := by
  simp [finish, h]

/-- A flaw stays a flaw at the end of the text. -/
theorem isSome_problem?_finish {s : Scan} {m : String} (h : (s.problem? m).isSome = true) :
    (s.finish.problem? m).isSome = true := by
  cases ho : s.opened with
  | none => rwa [finish_of_closed ho]
  | some o =>
    rw [finish_of_opened ho, problem?_close]
    exact isSome_problem?_flaw h _ _

/-- A name without a problem at the end had none before. -/
theorem problem?_eq_none_of_finish {s : Scan} {m : String} {offset : Nat} {ls : List (List Char)}
    (h : (s.lines offset ls).finish.problem? m = none) : s.problem? m = none := by
  cases hp : s.problem? m with
  | none => rfl
  | some p =>
    have := isSome_problem?_finish
      (isSome_problem?_lines (s := s) (m := m) (by simp [hp]) offset ls)
    rw [h] at this
    exact absurd this (by decide)

/-- A name that begins without a problem is new, and nothing was open. -/
theorem opened_of_clean {s : Scan} {n : String} {a b : Nat}
    (h : (s.beginAt n a b).problem? n = none) : s.opened = none ∧ n ∉ s.begun := by
  have hnone : s.opened = none := by
    cases ho : s.opened with
    | none => rfl
    | some o =>
      rw [beginAt_of_opened ho, problem?_close] at h
      have hsome := isSome_problem?_flaw_self (s.flaw o.name (.holds n o.name)) n (.inside o.name)
      rw [h] at hsome
      exact absurd hsome (by decide)
  refine ⟨hnone, fun hn => ?_⟩
  rw [beginAt_of_begun hnone hn] at h
  have hsome := isSome_problem?_flaw_self s n .repeated
  rw [h] at hsome
  exact absurd hsome (by decide)

/-! ## What holds after every line -/

/-- The regions that were found have names of their own, were begun, and have no problem; what is
open was begun and is not among them. -/
structure Sound (s : Scan) : Prop where
  nodup : s.names.Nodup
  begun : ∀ r ∈ s.regions, r.name ∈ s.begun
  clean : ∀ r ∈ s.regions, s.problem? r.name = none
  opened : ∀ o, s.opened = some o → o.name ∈ s.begun ∧ o.name ∉ s.names

/-- Before the first line nothing was found, so that nothing can be wrong with it. -/
theorem sound_empty : Sound empty := ⟨.nil, by simp [empty], by simp [empty], by simp [empty]⟩

/-- A flaw keeps a scan sound: it takes regions away and adds none. -/
theorem Sound.flaw {s : Scan} (h : s.Sound) (n : String) (p : Problem) : (s.flaw n p).Sound where
  nodup := h.nodup.sublist (List.filter_sublist.map _)
  begun r hr := h.begun r (List.mem_of_mem_filter hr)
  clean r hr := by
    obtain ⟨hr, hne⟩ := List.mem_filter.1 hr
    rw [problem?_flaw, if_neg fun hn => by simp [hn.1] at hne]
    exact h.clean r hr
  opened o ho := by
    obtain ⟨h1, h2⟩ := h.opened o ho
    exact ⟨h1, fun hm => h2 ((List.filter_sublist.map _).subset hm)⟩

/-- Closing a region keeps a scan sound. -/
theorem Sound.close {s : Scan} (h : s.Sound) : s.close.Sound :=
  ⟨h.nodup, h.begun, h.clean, by simp⟩

/-- **One line keeps the scanner sound.** In each of the cases the regions that are complete have no
problem, and the one that is open has begun. -/
theorem Sound.lineAt {s : Scan} (h : s.Sound) (mark : Mark) (a b : Nat) :
    (s.lineAt mark a b).Sound := by
  have hstep := step_lineAt s mark a b
  generalize s.lineAt mark a b = t at hstep ⊢
  cases hstep with
  | plain => exact h
  | nested | other => exact ((h.flaw _ _).flaw _ _).close
  | repeated | unopened => exact h.flaw _ _
  | @fresh n ho hn =>
    -- A new name is opened, and no region has it yet, since none was begun with it.
    refine ⟨h.nodup, fun r hr => List.mem_cons_of_mem _ (h.begun r hr), h.clean, ?_⟩
    rintro o ho'
    obtain rfl : (⟨n, a, b⟩ : Opening) = o := Option.some.inj ho'
    refine ⟨List.mem_cons_self, fun hm => ?_⟩
    obtain ⟨r, hr, rfl⟩ := List.mem_map.1 hm
    exact hn (h.begun r hr)
  | flawed => exact h.close
  | @found o ho hp =>
    -- The region that was opened is closed, and added under its new name.
    obtain ⟨hbegun, hfresh⟩ := h.opened o ho
    refine ⟨?_, ?_, ?_, by simp⟩
    · rw [names, List.map_append]
      exact List.nodup_append.2 ⟨h.nodup, by simp, by
        rintro x hx y hy rfl
        have hname : x = o.name := by simpa using hy
        exact hfresh (hname ▸ hx)⟩
    · intro r hr
      rcases List.mem_append.1 hr with hr | hr
      · exact h.begun r hr
      · rwa [List.mem_singleton.1 hr]
    · intro r hr
      rcases List.mem_append.1 hr with hr | hr
      · exact h.clean r hr
      · rwa [List.mem_singleton.1 hr]

/-- **All lines keep the scanner sound.** The induction is on the lines. -/
theorem Sound.lines {s : Scan} (h : s.Sound) (offset : Nat) (ls : List (List Char)) :
    (s.lines offset ls).Sound := by
  induction ls generalizing s offset with
  | nil => exact h
  | cons l ls ih => exact ih (h.lineAt _ _ _) _

/-- The end of the text keeps a scan sound. -/
theorem Sound.finish {s : Scan} (h : s.Sound) : s.finish.Sound := by
  cases ho : s.opened with
  | none => rwa [finish_of_closed ho]
  | some o =>
    rw [finish_of_opened ho]
    exact (h.flaw _ _).close

/-! ## The regions are those of the pieces -/

/-- A flaw of one name takes no region from the others. -/
theorem filter_regions_flaw (s : Scan) {isClean : String → Bool} {n : String}
    (h : isClean n = false) (p : Problem) :
    (s.flaw n p).regions.filter (isClean ·.name) = s.regions.filter (isClean ·.name) := by
  rw [regions_flaw, List.filter_filter]
  refine List.filter_congr fun r _ => ?_
  by_cases hr : r.name = n
  · simp [hr, h]
  · simp [hr]

/-- A name that is opened and has no problem at the end is closed by the next marker line. -/
theorem find?_of_clean {s : Scan} {o : Opening} (ho : s.opened = some o) {offset : Nat}
    {ls : List (List Char)} (h : (s.lines offset ls).finish.problem? o.name = none) :
    ∃ closing ∈ ls.find? isMarkerLine, Mark.ofLine closing = .ends o.name := by
  induction ls generalizing offset with
  | nil =>
    rw [lines, finish_of_opened ho, problem?_close] at h
    have := isSome_problem?_flaw_self s o.name .unclosed
    rw [h] at this
    exact absurd this (by decide)
  | cons l ls ih =>
    rw [lines_cons] at h
    cases hl : Mark.ofLine l with
    | plain =>
      rw [hl] at h
      rw [List.find?_cons_of_neg (by simp [isMarkerLine, hl])]
      exact ih h
    | begins n =>
      -- Another region cannot begin within an open one without a problem of the open one.
      have hflaw := problem?_eq_none_of_finish h
      rw [hl, lineAt, beginAt_of_opened ho, problem?_close] at hflaw
      have := isSome_problem?_flaw (isSome_problem?_flaw_self s o.name (.holds n o.name)) n
        (.inside o.name)
      rw [hflaw] at this
      exact absurd this (by decide)
    | ends n =>
      rw [List.find?_cons_of_pos (isMarkerLine_of_ends hl)]
      refine ⟨l, rfl, ?_⟩
      by_cases hn : n = o.name
      · rw [hl, hn]
      · have hflaw := problem?_eq_none_of_finish h
        rw [hl, lineAt, endAt_of_other ho hn, problem?_close] at hflaw
        have := isSome_problem?_flaw (isSome_problem?_flaw_self s o.name (.closedBy n)) n
          .unopened
        rw [hflaw] at this
        exact absurd this (by decide)

/-- A line that belongs to no clean region finds none and opens none. -/
theorem lineAt_of_unclean {s : Scan} {isClean : String → Bool} {mark : Mark} {a b : Nat}
    (hflawed : ∀ n, ((s.lineAt mark a b).problem? n).isSome = true → isClean n = false)
    (hopened : ∀ o, s.opened = some o → isClean o.name = false)
    (hnew : ∀ n, mark = .begins n → s.opened = none → n ∉ s.begun → isClean n = false) :
    (s.lineAt mark a b).regions.filter (isClean ·.name) = s.regions.filter (isClean ·.name) ∧
      ∀ o, (s.lineAt mark a b).opened = some o → isClean o.name = false := by
  have hstep := step_lineAt s mark a b
  generalize s.lineAt mark a b = t at hflawed hstep ⊢
  -- Every name that takes part in the step has a problem, or had one and is not clean.
  cases hstep with
  | plain => exact ⟨rfl, hopened⟩
  | @nested n o ho | @other n o ho =>
    have hn : isClean n = false := hflawed n (isSome_problem?_flaw_self _ _ _)
    rw [regions_close, filter_regions_flaw _ hn, filter_regions_flaw _ (hopened o ho)]
    exact ⟨rfl, by simp⟩
  | @repeated n ho | @unopened n ho =>
    have hn : isClean n = false := hflawed n (isSome_problem?_flaw_self _ _ _)
    rw [filter_regions_flaw _ hn, opened_flaw, ho]
    exact ⟨rfl, by simp⟩
  | @fresh n ho hb =>
    refine ⟨rfl, fun o ho' => ?_⟩
    obtain rfl : (⟨n, a, b⟩ : Opening) = o := Option.some.inj ho'
    exact hnew n rfl ho hb
  | flawed => exact ⟨rfl, by simp⟩
  | @found o ho =>
    rw [List.filter_append, List.filter_singleton]
    exact ⟨by simp [hopened o ho], by simp⟩

/-- **The regions found in lines are those of their pieces.** The clean names are those without a
problem at the end, and the region that is open before the lines is of no clean name. -/
theorem regions_lines {isClean : String → Bool} {ls : List (List Char)} {s : Scan} {offset : Nat}
    (hclean : ∀ n, isClean n = ((s.lines offset ls).finish.problem? n).isNone)
    (hopened : ∀ o, s.opened = some o → isClean o.name = false) :
    (s.lines offset ls).finish.regions.filter (isClean ·.name) =
      s.regions.filter (isClean ·.name) ++ locate offset (piecesOf isClean ls) := by
  induction ls using piecesOf.induct isClean generalizing s offset with
  | case1 =>
    rw [piecesOf_nil, locate_nil, List.append_nil, lines]
    cases ho : s.opened with
    | none => rw [finish_of_closed ho]
    | some o =>
      rw [finish_of_opened ho, regions_close, filter_regions_flaw s (hopened o ho)]
  | case2 l ls p rest h ih =>
    obtain ⟨name, inner, closing, rfl, rfl, hinner, hl, hc, hname⟩ := takeRegion?_eq_some.1 h
    -- The name is clean, so it had no problem at its first line: nothing was open, and it is new.
    have hstep : (s.lineAt (Mark.ofLine l) offset (offset + l.length)).problem? name = none := by
      rw [hclean, Option.isNone_iff_eq_none] at hname
      exact problem?_eq_none_of_finish hname
    rw [hl, lineAt] at hstep
    obtain ⟨hnone, hnew⟩ := opened_of_clean hstep
    rw [beginAt_of_fresh hnone hnew] at hstep
    have hrun := lines_region hnone hnew hstep ⟨hl, hc, hinner⟩ offset rest
    rw [piecesOf_region h, locate_region, hrun,
      ih (by simpa only [hrun] using hclean) (by simp), List.filter_append, List.append_assoc,
      List.filter_singleton]
    simp [hname]
  | case3 l ls h ih =>
    rw [piecesOf_line h, locate_line]
    have hflawed : ∀ n,
        ((s.lineAt (Mark.ofLine l) offset (offset + l.length)).problem? n).isSome = true →
          isClean n = false := by
      intro n hn
      rw [hclean, Option.isNone_eq_false_iff]
      exact isSome_problem?_finish (isSome_problem?_lines hn _ _)
    -- A clean name that begins here would have made a piece.
    have hnew : ∀ n, Mark.ofLine l = .begins n → s.opened = none → n ∉ s.begun →
        isClean n = false := by
      intro n hl hnone hfresh
      by_contra hn
      rw [Bool.not_eq_false] at hn
      have hend := hn
      rw [hclean, Option.isNone_iff_eq_none, lines_cons, hl, lineAt,
        beginAt_of_fresh hnone hfresh] at hend
      obtain ⟨closing, hfind, hends⟩ :=
        find?_of_clean (o := ⟨n, offset, offset + l.length⟩) rfl hend
      have hname := takeRegion?_eq_none_iff.1 h closing hfind
      rw [regionName?_eq_some.2 ⟨hl, hends, hn⟩] at hname
      exact absurd hname (by simp)
    obtain ⟨hregions, hopened'⟩ := lineAt_of_unclean hflawed hopened hnew
    rw [lines_cons, ih hclean hopened', hregions]

end Scan

/-- The scan of every text is sound: it is so before the first line, and each line keeps it so. -/
theorem sound_scan (text : List Char) : (scan text).Sound :=
  (Scan.sound_empty.lines _ _).finish

/-! ## The pieces of a text -/

/-- Whether no marker of the name is out of place in a text. -/
def isCleanIn (text : List Char) (name : String) : Bool := ((scan text).problem? name).isNone

/-- The pieces of a text: its regions, and the lines outside of them. -/
def pieces (text : List Char) : List Piece := piecesOf (isCleanIn text) (Text.lines text)

/-- **The pieces of a text make up the text.** Nothing is lost between the regions, and nothing is
said twice. -/
theorem flatMap_text_pieces (text : List Char) : (pieces text).flatMap Piece.text = text := by
  rw [flatMap_text, pieces, flatMap_lines_piecesOf, Text.flatten_lines]

/-- **The regions of a text are those of its pieces.** This is what connects the scanner, which goes
line by line with a region open, with the pieces, which are cut by looking ahead for the end of a
region. -/
theorem regions_scan (text : List Char) : (scan text).regions = locate 0 (pieces text) := by
  have hall : (scan text).regions.filter (isCleanIn text ·.name) = (scan text).regions := by
    refine List.filter_eq_self.2 fun r hr => ?_
    rw [isCleanIn, (sound_scan text).clean r hr]
    rfl
  rw [← hall, pieces]
  exact Scan.regions_lines (s := Scan.empty) (fun _ => rfl) (by simp [Scan.empty])

end FormScaffold.Region
