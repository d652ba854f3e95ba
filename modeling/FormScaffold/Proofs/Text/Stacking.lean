import FormScaffold.Proofs.Text.Endings

/-! # Lines on top of each other

Lines of texts, put together into one text. Each stays a line, but where a carriage return meets a
line feed the two become one break.

* **`IsStacked ls`** — whole lines, all but the last of which end in a break;
* **`fuse ls`** — the lines, with every break of two put together;
* **`lines_flatten_of_isStacked`** — these are the lines of the text;
* `fuse_append` — lines are fused apart where the second ones do not start with a line feed;
* `fuse_cons_cases` — what becomes of a first line and of those after it. -/

namespace FormScaffold.Text

/-- Lines on top of each other: nothing is said of a carriage return that meets a line feed. -/
structure IsStacked (ls : List (List Char)) : Prop where
  one : ∀ l ∈ ls, lines l = [l]
  breaks : ls.Pairwise fun l _ => EndsInBreak l

/-- Stacked lines on top of others. -/
theorem isStacked_append {ls ms : List (List Char)} :
    IsStacked (ls ++ ms) ↔
      IsStacked ls ∧ IsStacked ms ∧ (ms ≠ [] → ∀ l ∈ ls, EndsInBreak l) := by
  constructor
  · rintro ⟨hone, hbreaks⟩
    obtain ⟨hls, hms⟩ := List.forall_mem_append.1 hone
    obtain ⟨hfirst, hsecond, hbetween⟩ := List.pairwise_append.1 hbreaks
    refine ⟨⟨hls, hfirst⟩, ⟨hms, hsecond⟩, fun hne l hl => ?_⟩
    obtain ⟨m, hm⟩ := List.exists_mem_of_ne_nil ms hne
    exact hbetween l hl m hm
  · rintro ⟨⟨hls, hfirst⟩, ⟨hms, hsecond⟩, hbetween⟩
    refine ⟨List.forall_mem_append.2 ⟨hls, hms⟩, List.pairwise_append.2 ⟨hfirst, hsecond, ?_⟩⟩
    intro l hl m hm
    exact hbetween (List.ne_nil_of_mem hm) l hl

/-- One line on top of others. -/
theorem isStacked_cons {l : List Char} {ls : List (List Char)} :
    IsStacked (l :: ls) ↔ lines l = [l] ∧ (ls ≠ [] → EndsInBreak l) ∧ IsStacked ls := by
  have hsingle : IsStacked [l] ↔ lines l = [l] :=
    ⟨fun h => h.one l List.mem_cons_self, fun h => ⟨by simpa using h, List.pairwise_singleton _ _⟩⟩
  rw [← List.singleton_append, isStacked_append, hsingle, List.forall_mem_singleton]
  exact and_congr_right fun _ => and_comm

/-- The lines of a text are stacked. -/
theorem IsLines.isStacked {ls : List (List Char)} (h : IsLines ls) : IsStacked ls := by
  induction ls with
  | nil => exact ⟨by simp, .nil⟩
  | cons l ls ih =>
    obtain ⟨hl, hnext, hls⟩ := isLines_cons.1 h
    refine isStacked_cons.2 ⟨hl, fun hne => ?_, ih hls⟩
    cases ls with
    | nil => exact absurd rfl hne
    | cons m ms => exact (hnext m rfl).1

/-- What is left of stacked lines is stacked. -/
theorem IsStacked.sublist {ls ms : List (List Char)} (h : IsStacked ls) (hms : ms.Sublist ls) :
    IsStacked ms :=
  ⟨fun l hl => h.one l (hms.subset hl), h.breaks.sublist hms⟩

/-! ## Breaks that meet -/

/-- The lines, with a line feed alone put to a carriage return before it. -/
def fuse : List (List Char) → List (List Char)
  | [] => []
  | [l] => [l]
  | l :: m :: ls =>
    if l.getLast? = some '\r' ∧ m = ['\n'] then (l ++ ['\n']) :: fuse ls else l :: fuse (m :: ls)

/-- The first two lines are fused, or the first stays. -/
theorem fuse_cons_cons (l m : List Char) (ls : List (List Char)) :
    fuse (l :: m :: ls) =
      if l.getLast? = some '\r' ∧ m = ['\n'] then (l ++ ['\n']) :: fuse ls
      else l :: fuse (m :: ls) := by rfl

/-- A line and those after it are fused apart, unless its break takes a line feed after it. -/
theorem fuse_cons_cases (l : List Char) (ls : List (List Char)) :
    (l.getLast? = some '\r' ∧ ∃ ms, ls = ['\n'] :: ms ∧ fuse (l :: ls) = (l ++ ['\n']) :: fuse ms) ∨
      ¬(l.getLast? = some '\r' ∧ ls.head? = some ['\n']) ∧ fuse (l :: ls) = l :: fuse ls := by
  cases ls with
  | nil => exact .inr ⟨by simp, rfl⟩
  | cons m ms =>
    rw [fuse_cons_cons]
    by_cases h : l.getLast? = some '\r' ∧ m = ['\n']
    · rw [if_pos h]
      obtain ⟨hcr, rfl⟩ := h
      exact .inl ⟨hcr, ms, rfl, rfl⟩
    · rw [if_neg h]
      refine .inr ⟨?_, rfl⟩
      rintro ⟨hcr, hhead⟩
      exact h ⟨hcr, Option.some.inj hhead⟩

/-- The text is the same. -/
theorem flatten_fuse (ls : List (List Char)) : (fuse ls).flatten = ls.flatten := by
  induction ls using fuse.induct with
  | case1 => rfl
  | case2 l => rfl
  | case3 l m ls h ih =>
    rw [fuse_cons_cons, if_pos h, List.flatten_cons, ih, h.2]
    simp
  | case4 l m ls h ih => rw [fuse_cons_cons, if_neg h, List.flatten_cons, ih, ← List.flatten_cons]

/-- Lines are fused apart where the second ones do not start with a mere line feed. -/
theorem fuse_append (ls : List (List Char)) {m : List Char} (hm : m ≠ ['\n'])
    (ms : List (List Char)) : fuse (ls ++ m :: ms) = fuse ls ++ fuse (m :: ms) := by
  induction ls using fuse.induct with
  | case1 => rfl
  | case2 l =>
    have hfirst : fuse (l :: m :: ms) = l :: fuse (m :: ms) := by
      rw [fuse_cons_cons, if_neg fun h => hm h.2]
    exact hfirst
  | case3 l m' ls h ih =>
    rw [List.cons_append, List.cons_append, fuse_cons_cons, if_pos h, fuse_cons_cons,
      if_pos h, ih]
    rfl
  | case4 l m' ls h ih =>
    rw [List.cons_append, List.cons_append, fuse_cons_cons, if_neg h, fuse_cons_cons,
      if_neg h, ← List.cons_append, ih]
    rfl

/-- **Fused lines are lines.** A carriage return and a line feed that meet are put on one line. -/
theorem isLines_fuse {ls : List (List Char)} (h : IsStacked ls) : IsLines (fuse ls) := by
  induction ls using fuse.induct with
  | case1 => exact isLines_nil
  | case2 l => exact isLines_cons.2 ⟨h.one l List.mem_cons_self, by simp, isLines_nil⟩
  | case3 l m ls hfuse ih =>
    obtain ⟨hl, -, hrest⟩ := isStacked_cons.1 h
    obtain ⟨-, -, hls⟩ := isStacked_cons.1 hrest
    have hlast : (l ++ ['\n']).getLast? = some '\n' := by simp
    rw [fuse_cons_cons, if_pos hfuse]
    refine isLines_cons.2 ⟨lines_concat_lf hl (takesLf_of_cr hfuse.1), fun m _ => ?_, ih hls⟩
    exact ⟨endsInBreak_of_lf hlast, not_fuses_of_lf hlast m⟩
  | case4 l m ls hapart ih =>
    obtain ⟨hl, hbreak, hrest⟩ := isStacked_cons.1 h
    have hlines := ih hrest
    rw [fuse_cons_cons, if_neg hapart]
    refine isLines_cons.2 ⟨hl, fun m' hm' => ⟨hbreak (by simp), fun hfuse => ?_⟩, hlines⟩
    -- The next line would be a mere line feed, and be so before the lines after it were fused.
    have hone := hlines.one m' (List.mem_of_mem_head? hm')
    obtain rfl : m' = ['\n'] := eq_lf_of_lines_eq hone hfuse.2
    rcases fuse_cons_cases m ls with ⟨hcr, ms, -, heq⟩ | ⟨-, heq⟩
    · rw [heq] at hm'
      obtain rfl : m = [] := by simpa using hm'
      exact absurd hcr (by simp)
    · rw [heq] at hm'
      exact hapart ⟨hfuse.1, Option.some.inj hm'⟩

/-- **The lines of a text that stacked lines make up.** They are the stacked lines, with those fused
whose breaks meet. -/
theorem lines_flatten_of_isStacked {ls : List (List Char)} (h : IsStacked ls) :
    lines ls.flatten = fuse ls := by
  rw [← flatten_fuse, lines_flatten (isLines_fuse h)]

end FormScaffold.Text
