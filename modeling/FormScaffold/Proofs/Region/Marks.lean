import FormScaffold.Proofs.Region.Scanning
import FormScaffold.Proofs.Text.Stacking

/-! # What the lines of a text mark

Scanning keeps places, but which names have a region and which have a problem depends on what the
lines mark alone.

* **`marks ls`** — what the lines mark, in order;
* `Scan.Alike` — scanners that have read the same marks, whatever the places;
* **`scan_congr`** — texts with the same marks have the same regions and problems;
* **`scan_of_marks`** — regions one after the other, each with its own name, are all found;
* `marks_fuse` — breaks that meet leave the marks. -/

namespace FormScaffold.Region

/-- What the marker lines among lines mark, in order. -/
def marks (ls : List (List Char)) : List Mark := (ls.filter isMarkerLine).map Mark.ofLine

/-- No lines mark nothing. -/
@[simp] theorem marks_nil : marks [] = [] := rfl

/-- A line that is no marker marks nothing. -/
theorem marks_cons_of_plain {l : List Char} (h : isMarkerLine l = false) (ls : List (List Char)) :
    marks (l :: ls) = marks ls := by
  rw [marks, List.filter_cons_of_neg (by simp [h]), ← marks]

/-- A marker line marks what is read of it. -/
theorem marks_cons_of_marker {l : List Char} (h : isMarkerLine l = true) (ls : List (List Char)) :
    marks (l :: ls) = Mark.ofLine l :: marks ls := by
  rw [marks, List.filter_cons_of_pos h, List.map_cons, ← marks]

/-- Lines mark what they mark one behind the other. -/
theorem marks_append (ls ms : List (List Char)) : marks (ls ++ ms) = marks ls ++ marks ms := by
  rw [marks, List.filter_append, List.map_append, ← marks, ← marks]

/-- Plain lines mark nothing. -/
theorem marks_eq_nil_iff {ls : List (List Char)} :
    marks ls = [] ↔ ∀ l ∈ ls, isMarkerLine l = false := by
  rw [marks, List.map_eq_nil_iff, List.filter_eq_nil_iff]
  exact forall₂_congr fun l _ => iff_of_eq (Bool.not_eq_true _)

/-- First lines that mark the same. -/
theorem marks_cons_congr {l m : List Char} (h : Mark.ofLine l = Mark.ofLine m)
    {ls ms : List (List Char)} (hs : marks ls = marks ms) : marks (l :: ls) = marks (m :: ms) := by
  have hmarker : isMarkerLine l = isMarkerLine m := by rw [isMarkerLine, h, ← isMarkerLine]
  cases hm : isMarkerLine m with
  | true => rw [marks_cons_of_marker (hmarker.trans hm), marks_cons_of_marker hm, h, hs]
  | false => rw [marks_cons_of_plain (hmarker.trans hm), marks_cons_of_plain hm, hs]

/-- Lines that mark the same, one by one, have the same marks. -/
theorem marks_map {f : List Char → List Char} {ls : List (List Char)}
    (h : ∀ l ∈ ls, Mark.ofLine (f l) = Mark.ofLine l) : marks (ls.map f) = marks ls := by
  induction ls with
  | nil => rfl
  | cons l ls ih =>
    obtain ⟨hl, hls⟩ := List.forall_mem_cons.1 h
    exact marks_cons_congr hl (ih hls)

/-! ## Breaks that meet -/

/-- A line feed that belongs to a line leaves what the line marks. -/
theorem ofLine_concat_lf {l : List Char} (h : Text.TakesLf l) :
    Mark.ofLine (l ++ ['\n']) = Mark.ofLine l := by
  rw [Mark.ofLine, Text.stripBreak_concat_lf h, ← Mark.ofLine]

/-- A line that marks something is no mere line feed. -/
theorem ne_lf_of_ofLine {l : List Char} (h : Mark.ofLine l ≠ .plain) : l ≠ ['\n'] := by
  rintro rfl
  exact h (by decide)

/-- Whatever becomes of a first line, it marks the same. -/
theorem exists_fuse_cons (l : List Char) (ls : List (List Char)) :
    ∃ m ms, Text.fuse (l :: ls) = m :: ms ∧ Mark.ofLine m = Mark.ofLine l := by
  rcases Text.fuse_cons_cases l ls with ⟨hcr, ms, -, heq⟩ | ⟨-, heq⟩
  · exact ⟨_, _, heq, ofLine_concat_lf (Text.takesLf_of_cr hcr)⟩
  · exact ⟨_, _, heq, rfl⟩

/-- Breaks that meet leave what the lines mark. -/
theorem marks_fuse (ls : List (List Char)) : marks (Text.fuse ls) = marks ls := by
  have hlf : isMarkerLine ['\n'] = false := by decide
  induction ls using Text.fuse.induct with
  | case1 => rfl
  | case2 l => rfl
  | case3 l m ls h ih =>
    obtain ⟨hcr, rfl⟩ := h
    rw [Text.fuse_cons_cons, if_pos ⟨hcr, rfl⟩]
    refine marks_cons_congr (ofLine_concat_lf (Text.takesLf_of_cr hcr)) ?_
    rw [ih, marks_cons_of_plain hlf]
  | case4 l m ls h ih =>
    rw [Text.fuse_cons_cons, if_neg h]
    exact marks_cons_congr rfl ih

/-- A line feed after a text leaves what its lines mark. -/
theorem marks_lines_concat_lf (text : List Char) :
    marks (Text.lines (text ++ ['\n'])) = marks (Text.lines text) := by
  by_cases hlast : Text.TakesLf text
  · rcases List.eq_nil_or_concat (Text.lines text) with hnil | ⟨ls, l, hls⟩
    · obtain rfl : text = [] := by rw [← Text.flatten_lines text, hnil, List.flatten_nil]
      rfl
    · rw [List.concat_eq_append] at hls
      obtain ⟨htakes, hlines⟩ := Text.lines_append_lf hls hlast
      rw [hlines, hls, marks_append, marks_append, marks_cons_congr (ofLine_concat_lf htakes) rfl]
  · -- The line feed is a line of its own.
    unfold Text.TakesLf at hlast
    push Not at hlast
    obtain ⟨c, hc, hbreak, hcr⟩ := hlast
    have hfuse : ¬Text.Fuses text ['\n'] := fun h =>
      hcr (Option.some.inj ((Option.mem_def.1 hc).symm.trans h.1))
    rw [Text.lines_append ⟨c, hc, hbreak⟩ hfuse, marks_append]
    have hnil : marks (Text.lines ['\n']) = [] := by decide
    rw [hnil, List.append_nil]

/-! ## Scanners that read the same marks -/

namespace Scan

/-- A problem takes the name from those that were found. -/
@[simp] theorem names_flaw (s : Scan) (n : String) (p : Problem) :
    (s.flaw n p).names = s.names.filter (· != n) := by
  rw [names, regions_flaw, names, List.filter_map]
  rfl

/-- Two scanners that have read the same marks, wherever their texts have them. -/
structure Alike (s s' : Scan) : Prop where
  names : s.names = s'.names
  problems : s.problems = s'.problems
  begun : s.begun = s'.begun
  opened : s.opened.map (·.name) = s'.opened.map (·.name)

/-- Scanners that are alike have the same problems of the same names. -/
theorem Alike.problem? {s s' : Scan} (h : Alike s s') (n : String) :
    s.problem? n = s'.problem? n := by
  rw [Scan.problem?, Scan.problem?, h.problems]

/-- A problem that both get leaves them alike. -/
theorem Alike.flaw {s s' : Scan} (h : Alike s s') (n : String) (p : Problem) :
    Alike (s.flaw n p) (s'.flaw n p) := by
  refine ⟨?_, ?_, h.begun, h.opened⟩
  · rw [names_flaw, names_flaw, h.names]
  · unfold Scan.flaw
    rw [h.problem? n, h.problems]

/-- Closing what is open leaves scanners alike. -/
theorem Alike.close {s s' : Scan} (h : Alike s s') : Alike s.close s'.close :=
  ⟨h.names, h.problems, h.begun, rfl⟩

/-- Both have nothing open, or regions of one name. -/
theorem Alike.cases {s s' : Scan} (h : Alike s s') :
    s.opened = none ∧ s'.opened = none ∨
      ∃ o o', s.opened = some o ∧ s'.opened = some o' ∧ o.name = o'.name := by
  have ho := h.opened
  cases hs : s.opened with
  | none =>
    rw [hs] at ho
    exact .inl ⟨rfl, Option.map_eq_none_iff.1 ho.symm⟩
  | some o =>
    rw [hs] at ho
    obtain ⟨o', ho', hname⟩ := Option.map_eq_some_iff.1 ho.symm
    exact .inr ⟨o, o', rfl, ho', hname.symm⟩

/-- **A mark is read alike**, whatever its place. A place only matters for where a region is found
to stand, not for whether it is found. -/
theorem Alike.lineAt {s s' : Scan} (h : Alike s s') (mark : Mark) (a b a' b' : Nat) :
    Alike (s.lineAt mark a b) (s'.lineAt mark a' b') := by
  cases mark with
  | plain => exact h
  | begins n =>
    show Alike (s.beginAt n a b) (s'.beginAt n a' b')
    rcases h.cases with ⟨ho, ho'⟩ | ⟨o, o', ho, ho', hname⟩
    · by_cases hn : n ∈ s.begun
      · rw [beginAt_of_begun ho hn, beginAt_of_begun ho' (h.begun ▸ hn)]
        exact h.flaw _ _
      · rw [beginAt_of_fresh ho hn, beginAt_of_fresh ho' (h.begun ▸ hn)]
        exact ⟨h.names, h.problems, by rw [h.begun], rfl⟩
    · rw [beginAt_of_opened ho, beginAt_of_opened ho', hname]
      exact ((h.flaw _ _).flaw _ _).close
  | ends n =>
    show Alike (s.endAt n a b) (s'.endAt n a' b')
    rcases h.cases with ⟨ho, ho'⟩ | ⟨o, o', ho, ho', hname⟩
    · rw [endAt_of_closed ho, endAt_of_closed ho']
      exact h.flaw _ _
    · by_cases hn : n = o.name
      · subst hn
        -- The name has a problem in both or in neither, so that both regions are found or none.
        have hproblem := h.problem? o.name
        cases hp : s.problem? o.name with
        | some p =>
          rw [endAt_of_flawed ho (by rw [hp]; rfl), hname,
            endAt_of_flawed ho' (by rw [← hname, ← hproblem, hp]; rfl)]
          exact h.close
        | none =>
          rw [endAt_of_clean ho hp, hname,
            endAt_of_clean ho' (by rw [← hname, ← hproblem, hp])]
          exact ⟨by simpa [Scan.names] using h.names, h.problems, h.begun, rfl⟩
      · rw [endAt_of_other ho hn, endAt_of_other ho' (hname ▸ hn), hname]
        exact ((h.flaw _ _).flaw _ _).close

/-- The end of the text leaves scanners alike. -/
theorem Alike.finish {s s' : Scan} (h : Alike s s') : Alike s.finish s'.finish := by
  rcases h.cases with ⟨ho, ho'⟩ | ⟨o, o', ho, ho', hname⟩
  · rwa [finish_of_closed ho, finish_of_closed ho']
  · rw [finish_of_opened ho, finish_of_opened ho', hname]
    exact (h.flaw _ _).close

/-- Marks read one after the other, without their places. -/
def read (s : Scan) (ms : List Mark) : Scan := ms.foldl (fun s m => s.lineAt m 0 0) s

/-- Reading lines is like reading what they mark. -/
theorem Alike.lines {s s' : Scan} (h : Alike s s') (offset : Nat) (ls : List (List Char)) :
    Alike (s.lines offset ls) (s'.read (marks ls)) := by
  induction ls generalizing s s' offset with
  | nil => exact h
  | cons l ls ih =>
    rw [lines_cons]
    cases hl : isMarkerLine l with
    | true =>
      rw [marks_cons_of_marker hl]
      exact ih (h.lineAt _ _ _ _ _) _
    | false =>
      rw [marks_cons_of_plain hl, isMarkerLine_eq_false.1 hl]
      exact ih h _

/-- A scanner is like itself. -/
theorem Alike.refl (s : Scan) : Alike s s := ⟨rfl, rfl, rfl, rfl⟩

end Scan

/-! ## Texts with the same marks -/

/-- Scanning a text is like reading what its lines mark. -/
theorem alike_scan (text : List Char) :
    Scan.Alike (scan text) (Scan.empty.read (marks (Text.lines text))).finish :=
  ((Scan.Alike.refl Scan.empty).lines 0 (Text.lines text)).finish

/-- **Texts with the same marks have the same problems and the same regions.** Lines that are no
markers do nothing to the scanner, so that the texts may differ in them as they like. -/
theorem scan_congr {text text' : List Char}
    (h : marks (Text.lines text) = marks (Text.lines text')) :
    (scan text).problems = (scan text').problems ∧ names text = names text' := by
  have hfirst := alike_scan text
  have hsecond := alike_scan text'
  rw [h] at hfirst
  exact ⟨hfirst.problems.trans hsecond.problems.symm, hfirst.names.trans hsecond.names.symm⟩

/-- What regions of these names mark, one after the other. -/
def pairMarks (ns : List String) : List Mark := ns.flatMap fun n => [.begins n, .ends n]

/-- Regions with names of their own are read without a problem. -/
theorem Scan.read_pairMarks {ns : List String} (hnodup : ns.Nodup) {s : Scan}
    (hopened : s.opened = none) (hproblems : s.problems = []) (hnew : ∀ n ∈ ns, n ∉ s.begun) :
    (s.read (pairMarks ns)).opened = none ∧ (s.read (pairMarks ns)).problems = [] ∧
      (s.read (pairMarks ns)).names = s.names ++ ns := by
  induction ns generalizing s with
  | nil => exact ⟨hopened, hproblems, (List.append_nil _).symm⟩
  | cons n ns ih =>
    obtain ⟨hn, hnodup⟩ := List.nodup_cons.1 hnodup
    obtain ⟨hfresh, hnew⟩ := List.forall_mem_cons.1 hnew
    have hclean : Scan.problem? ⟨s.regions, s.problems, n :: s.begun, some ⟨n, 0, 0⟩⟩ n = none := by
      rw [problem?, hproblems]
      rfl
    have hstep : s.read (pairMarks (n :: ns)) =
        Scan.read ⟨s.regions ++ [⟨n, 0, 0, 0, 0⟩], s.problems, n :: s.begun, none⟩
          (pairMarks ns) := by
      show ((s.beginAt n 0 0).endAt n 0 0).read (pairMarks ns) = _
      rw [beginAt_of_fresh hopened hfresh, endAt_of_clean (o := ⟨n, 0, 0⟩) rfl hclean]
    -- Each name is new when its turn comes, as no name comes twice.
    have hlater : ∀ m ∈ ns, m ∉ n :: s.begun := by
      intro m hm hmem
      rcases List.mem_cons.1 hmem with rfl | hmem
      · exact hn hm
      · exact hnew m hm hmem
    obtain ⟨hclosed, hnone, hnames⟩ := @ih hnodup ⟨s.regions ++ [⟨n, 0, 0, 0, 0⟩], s.problems,
      n :: s.begun, none⟩ rfl hproblems hlater
    rw [hstep]
    refine ⟨hclosed, hnone, hnames.trans ?_⟩
    rw [names, List.map_append, ← names, List.append_assoc]
    rfl

/-- **Regions one after the other, each with its own name, are all found.** No name is repeated and
none is open when the next begins, so that no mark makes a problem. -/
theorem scan_of_marks {text : List Char} {ns : List String}
    (h : marks (Text.lines text) = pairMarks ns) (hnodup : ns.Nodup) :
    (scan text).problems = [] ∧ names text = ns := by
  have halike := alike_scan text
  obtain ⟨hclosed, hproblems, hnames⟩ :=
    Scan.read_pairMarks (s := Scan.empty) hnodup rfl rfl (by simp [Scan.empty])
  rw [h, Scan.finish_of_closed hclosed] at halike
  exact ⟨halike.problems.trans hproblems, halike.names.trans hnames⟩

end FormScaffold.Region
