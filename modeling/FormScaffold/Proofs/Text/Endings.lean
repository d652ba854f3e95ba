import FormScaffold.Proofs.Text.Lines

/-! # Line endings

A text that breaks its lines with line feeds alone can be put into either line ending.

* **`inEnding carriage cs`** — the text in one of the two endings;
* **`lines_inEnding`** — it is put there line by line;
* `stripBreak_inEnding` — a line is the same without its break;
* **`hasCarriage_flatten`** — a text has a carriage return before a line feed when one of its lines
  has;
* `TakesLf` — a line feed after the text belongs to its last line;
* `lines_append_lf` — the lines of such a text with the line feed. -/

namespace FormScaffold.Text

/-- The text with its line feeds as they are, or with a carriage return before each. -/
def inEnding (carriage : Bool) (cs : List Char) : List Char :=
  if carriage then toCarriage cs else cs

/-! ## Texts without carriage returns -/

/-- Without carriage returns there is nothing to drop. -/
theorem dropCarriage_eq_self {cs : List Char} (h : ∀ c ∈ cs, c ≠ '\r') : dropCarriage cs = cs := by
  induction cs using dropCarriage.induct with
  | case1 => rfl
  | case2 rest ih => exact absurd rfl (h '\r' List.mem_cons_self)
  | case3 c rest hno ih =>
    rw [dropCarriage.eq_3 c rest hno, ih fun d hd => h d (List.mem_cons_of_mem _ hd)]

/-- Without carriage returns no line ends in one. -/
theorem hasCarriage_eq_false {cs : List Char} (h : ∀ c ∈ cs, c ≠ '\r') :
    hasCarriage cs = false := by
  induction cs using hasCarriage.induct with
  | case1 => rfl
  | case2 rest => exact absurd rfl (h '\r' List.mem_cons_self)
  | case3 c rest hno ih =>
    rw [hasCarriage.eq_3 c rest hno, ih fun d hd => h d (List.mem_cons_of_mem _ hd)]

/-! ## Putting a text into an ending -/

/-- The empty text is the same in every ending. -/
@[simp] theorem inEnding_nil (carriage : Bool) : inEnding carriage [] = [] := by
  cases carriage <;> rfl

/-- Texts one behind the other are put into an ending one by one. -/
theorem inEnding_append (carriage : Bool) (as bs : List Char) :
    inEnding carriage (as ++ bs) = inEnding carriage as ++ inEnding carriage bs := by
  cases carriage with
  | false => rfl
  | true => exact List.flatMap_append

/-- A character that is no line feed is the same in every ending. -/
theorem inEnding_cons {c : Char} (hc : c ≠ '\n') (carriage : Bool) (cs : List Char) :
    inEnding carriage (c :: cs) = c :: inEnding carriage cs := by
  cases carriage with
  | false => rfl
  | true => simp [inEnding, toCarriage, hc]

/-- A text without line feeds is the same in every ending. -/
theorem inEnding_of_ne {cs : List Char} (h : ∀ c ∈ cs, c ≠ '\n') (carriage : Bool) :
    inEnding carriage cs = cs := by
  induction cs with
  | nil => exact inEnding_nil carriage
  | cons c cs ih =>
    rw [inEnding_cons (h c List.mem_cons_self), ih fun d hd => h d (List.mem_cons_of_mem _ hd)]

/-- Lines are put into an ending one by one. -/
theorem inEnding_flatten (carriage : Bool) (ls : List (List Char)) :
    inEnding carriage ls.flatten = (ls.map (inEnding carriage)).flatten := by
  induction ls with
  | nil => exact inEnding_nil carriage
  | cons l ls ih => rw [List.flatten_cons, inEnding_append, ih, List.map_cons, List.flatten_cons]

/-- A break of the ending. -/
theorem getLast?_inEnding {cs : List Char} (h : cs.getLast? = some '\n') (carriage : Bool) :
    (inEnding carriage cs).getLast? = some '\n' := by
  obtain ⟨front, rfl⟩ := List.getLast?_eq_some_iff.1 h
  rw [inEnding_append, List.getLast?_append_of_ne_nil _ (by cases carriage <;> decide)]
  cases carriage <;> rfl

/-! ## Lines -/

/-- A character that is no line feed goes to the first line in every ending. -/
theorem map_consLine {c : Char} (hc : c ≠ '\n') (carriage : Bool) (ls : List (List Char)) :
    (consLine c ls).map (inEnding carriage) = consLine c (ls.map (inEnding carriage)) := by
  cases ls with
  | nil => simp [consLine, inEnding_cons hc]
  | cons l ls => simp [consLine, inEnding_cons hc]

/-- **A text is put into an ending line by line.** Only line feeds are changed, and each of them
ends a line. -/
theorem lines_inEnding {cs : List Char} (h : ∀ c ∈ cs, isLineBreak c = true → c = '\n')
    (carriage : Bool) : lines (inEnding carriage cs) = (lines cs).map (inEnding carriage) := by
  induction cs with
  | nil => rw [inEnding_nil, lines_nil, List.map_nil]
  | cons c cs ih =>
    have hrest := ih fun d hd => h d (List.mem_cons_of_mem _ hd)
    by_cases hc : c = '\n'
    · subst hc
      rw [lines_break isLineBreak_lf (not_fuses_of_lf rfl cs), List.map_cons, ← hrest]
      cases carriage with
      | false => exact lines_break isLineBreak_lf (not_fuses_of_lf rfl _)
      | true => exact lines_cr_lf _
    · have hplain : isLineBreak c = false := by
        cases hb : isLineBreak c with
        | false => rfl
        | true => exact absurd (h c List.mem_cons_self hb) hc
      rw [inEnding_cons hc, lines_cons hplain, lines_cons hplain, hrest, map_consLine hc]

/-- A line has no line feed but the one at its end. -/
theorem eq_nil_of_lines_eq {as bs : List Char} (h : lines (as ++ '\n' :: bs) = [as ++ '\n' :: bs]) :
    bs = [] := by
  have hsplit : as ++ '\n' :: bs = (as ++ ['\n']) ++ bs := by simp
  have hlast : (as ++ ['\n']).getLast? = some '\n' := by simp
  rw [hsplit, lines_append (endsInBreak_of_lf hlast) (not_fuses_of_lf hlast bs)] at h
  by_contra hbs
  have hfirst : 0 < (lines (as ++ ['\n'])).length :=
    List.length_pos_iff.2 (lines_ne_nil (by simp))
  have hsecond : 0 < (lines bs).length := List.length_pos_iff.2 (lines_ne_nil hbs)
  have hlength := congrArg List.length h
  rw [List.length_append, List.length_singleton] at hlength
  omega

/-- A line is a text without line feeds, and maybe a line feed. -/
theorem exists_of_line {l : List Char} (hline : lines l = [l]) :
    (∀ c ∈ l, c ≠ '\n') ∨ ∃ as, l = as ++ ['\n'] ∧ ∀ c ∈ as, c ≠ '\n' := by
  by_cases hlf : '\n' ∈ l
  · obtain ⟨as, bs, rfl⟩ := List.append_of_mem hlf
    obtain rfl := eq_nil_of_lines_eq hline
    refine .inr ⟨as, rfl, ?_⟩
    rintro c hc rfl
    obtain ⟨front, back, rfl⟩ := List.append_of_mem hc
    rw [List.append_assoc, List.cons_append] at hline
    exact absurd (eq_nil_of_lines_eq hline) (by simp)
  · refine .inl ?_
    rintro c hc rfl
    exact hlf hc

/-- The break at the end of a line is dropped whatever the ending. -/
theorem stripBreak_inEnding {l : List Char} (hline : lines l = [l]) (h : ∀ c ∈ l, c ≠ '\r')
    (carriage : Bool) : stripBreak (inEnding carriage l) = stripBreak l := by
  rcases exists_of_line hline with hl | ⟨as, rfl, has⟩
  · rw [inEnding_of_ne hl]
  · have hstrip : stripBreak (as ++ ['\n']) = as := by
      refine stripBreak_lf fun c hc => ?_
      exact h c (List.mem_append_left _ (List.mem_of_getLast? hc))
    rw [hstrip, inEnding_append, inEnding_of_ne has]
    cases carriage with
    | false => exact hstrip
    | true => simp [inEnding, toCarriage, stripBreak]

/-! ## Carriage returns before line feeds -/

/-- A carriage return before a line feed is in one of two texts that do not fuse. -/
theorem hasCarriage_append {as bs : List Char} (h : ¬Fuses as bs) :
    hasCarriage (as ++ bs) = (hasCarriage as || hasCarriage bs) := by
  induction as using hasCarriage.induct with
  | case1 => rfl
  | case2 rest => rfl
  | case3 c rest hno ih =>
    have hno' : ∀ tail, c = '\r' → rest ++ bs = '\n' :: tail → False := by
      rintro tail rfl htail
      cases rest with
      | nil => exact h (fuses_singleton_iff.2 ⟨rfl, tail, htail⟩)
      | cons d rest => exact hno rest rfl (by simpa using (List.cons.inj htail).1)
    rw [List.cons_append, hasCarriage.eq_3 c (rest ++ bs) hno', hasCarriage.eq_3 c rest hno]
    exact ih fun hfuse => h (hfuse.cons c)

/-- **A text has a carriage return before a line feed when one of its lines has.** Lines never meet
in such a pair, as the two would be one break. -/
theorem hasCarriage_flatten {ls : List (List Char)} (h : IsLines ls) :
    hasCarriage ls.flatten = ls.any hasCarriage := by
  induction ls with
  | nil => rfl
  | cons l ls ih =>
    obtain ⟨-, hnext, hls⟩ := isLines_cons.1 h
    have hfuse : ¬Fuses l ls.flatten := by
      cases ls with
      | nil => rintro ⟨-, h2⟩; simp at h2
      | cons m ms =>
        rintro ⟨h1, h2⟩
        rw [head?_flatten (ne_nil_of_lines_eq (isLines_cons.1 hls).1)] at h2
        exact (hnext m rfl).2 ⟨h1, h2⟩
    rw [List.flatten_cons, hasCarriage_append hfuse, ih hls, List.any_cons]

/-- In the other ending every line feed has a carriage return. -/
theorem hasCarriage_inEnding {cs : List Char} (h : ∀ c ∈ cs, c ≠ '\r') (hlf : '\n' ∈ cs)
    (carriage : Bool) : hasCarriage (inEnding carriage cs) = carriage := by
  cases carriage with
  | false => exact hasCarriage_eq_false h
  | true =>
    induction cs with
    | nil => simp at hlf
    | cons c cs ih =>
      by_cases hc : c = '\n'
      · subst hc
        rfl
      · have hmem : '\n' ∈ cs := by
          rcases List.mem_cons.1 hlf with rfl | hlf
          · exact absurd rfl hc
          · exact hlf
        have hrest := ih (fun d hd => h d (List.mem_cons_of_mem _ hd)) hmem
        have hcr : c ≠ '\r' := h c List.mem_cons_self
        rw [inEnding_cons hc, hasCarriage.eq_3 _ _ fun _ hr _ => hcr hr, hrest]

/-! ## Lines that a line feed makes longer -/

/-- A line that starts with a line feed is that line feed. -/
theorem eq_lf_of_lines_eq {l : List Char} (hline : lines l = [l]) (h : l.head? = some '\n') :
    l = ['\n'] := by
  obtain ⟨tail, rfl⟩ := List.head?_eq_some_iff.1 h
  obtain rfl : tail = [] := @eq_nil_of_lines_eq [] tail hline
  rfl

/-- A line feed after the text belongs to its last line: no break ends the text, or a carriage
return does. -/
def TakesLf (cs : List Char) : Prop := ∀ c ∈ cs.getLast?, isLineBreak c = true → c = '\r'

/-- A text that ends in a carriage return takes a line feed that follows. -/
theorem takesLf_of_cr {cs : List Char} (h : cs.getLast? = some '\r') : TakesLf cs := by
  intro c hc _
  exact Option.some.inj ((Option.mem_def.1 hc).symm.trans h)

/-- Such a line stays one line when a line feed follows. -/
theorem lines_concat_lf {l : List Char} (hline : lines l = [l]) (h : TakesLf l) :
    lines (l ++ ['\n']) = [l ++ ['\n']] := by
  induction l with
  | nil => exact absurd hline (by simp)
  | cons c l ih =>
    by_cases hl : l = []
    · subst hl
      cases hc : isLineBreak c with
      | true =>
        obtain rfl : c = '\r' := h c rfl hc
        exact lines_cr_lf []
      | false => rw [List.singleton_append, lines_cons hc]; rfl
    · have hlast : TakesLf l := by
        intro d hd
        exact h d (by rwa [List.getLast?_cons_of_ne_nil hl])
      have hc : isLineBreak c = false := by
        by_contra hbreak
        rw [Bool.not_eq_false] at hbreak
        by_cases hfuse : Fuses [c] l
        · -- What follows the line feed would be another line.
          obtain ⟨rfl, tail, rfl⟩ := fuses_singleton_iff.1 hfuse
          obtain rfl : tail = [] := @eq_nil_of_lines_eq ['\r'] tail hline
          exact absurd (hlast '\n' rfl isLineBreak_lf) (by decide)
        · rw [lines_break hbreak hfuse] at hline
          exact hl (List.cons.inj (List.cons.inj hline).1).2.symm
      have hrest : lines l = [l] := by
        rw [lines_cons hc] at hline
        cases hls : lines l with
        | nil => exact absurd hls (lines_ne_nil hl)
        | cons m ms =>
          rw [hls] at hline
          obtain ⟨hm, hms⟩ := List.cons.inj hline
          rw [(List.cons.inj hm).2, hms]
      rw [List.cons_append, lines_cons hc, ih hrest hlast]
      rfl

/-- The last line of a text takes the line feed, and the lines before it stay. -/
theorem lines_append_lf {text l : List Char} {ls : List (List Char)}
    (hls : lines text = ls ++ [l]) (h : TakesLf text) :
    TakesLf l ∧ lines (text ++ ['\n']) = ls ++ [l ++ ['\n']] := by
  obtain ⟨hfirst, hl, hbetween⟩ := isLines_append.1 (hls ▸ isLines_lines text)
  have hone : lines l = [l] := hl.one l List.mem_cons_self
  have hne : l ≠ [] := ne_nil_of_lines_eq hone
  have htext : text = ls.flatten ++ l := by
    rw [← flatten_lines text, hls, List.flatten_append, List.flatten_singleton]
  have htakes : TakesLf l := by
    rwa [TakesLf, htext, List.getLast?_append_of_ne_nil _ hne] at h
  refine ⟨htakes, ?_⟩
  have hlines : IsLines (ls ++ [l ++ ['\n']]) := by
    refine isLines_append.2 ⟨hfirst, ?_, fun m hm m' hm' => ?_⟩
    · exact isLines_cons.2 ⟨lines_concat_lf hone htakes, by simp, isLines_nil⟩
    · obtain rfl := Option.some.inj hm'
      obtain ⟨hbreak, hfuse⟩ := hbetween m hm l rfl
      exact ⟨hbreak, fun h => hfuse ⟨h.1, by simpa [List.head?_append_of_ne_nil l hne] using h.2⟩⟩
  rw [← lines_flatten hlines, htext, List.flatten_append, List.flatten_singleton,
    List.append_assoc]

/-- A line that takes a line feed has the same text before its break. -/
theorem stripBreak_concat_lf {l : List Char} (h : TakesLf l) :
    stripBreak (l ++ ['\n']) = stripBreak l := by
  rcases List.eq_nil_or_concat l with rfl | ⟨front, c, rfl⟩
  · rfl
  · rw [List.concat_eq_append] at h ⊢
    cases hc : isLineBreak c with
    | true =>
      obtain rfl : c = '\r' := h c (by simp) hc
      simp [stripBreak]
    | false =>
      have hcr : c ≠ '\r' := by
        rintro rfl
        exact absurd hc (by decide)
      have hlf : c ≠ '\n' := by
        rintro rfl
        exact absurd hc (by decide)
      rw [stripBreak_lf (by simpa using hcr)]
      simp [stripBreak, hcr, hlf]

end FormScaffold.Text
