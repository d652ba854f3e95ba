import FormScaffold.Text.Line
import Mathlib.Data.List.Chain

/-! # Texts put together from lines

`Text.lines` cuts a text after each break. Lists of lines are cut again at the same places when
every line but the last ends in a break and no carriage return meets a line feed:

* **`IsLines ls`** — the lists of lines that come from a text;
* `lines_flatten` — they are the lines of the text they make up;
* `isLines_lines` — and the lines of every text are such a list;
* `lines_append` — a text that ends in a break can be cut apart from what follows it. -/

namespace FormScaffold.Text

/-! ## Letters and digits -/

/-- The big letters of ASCII, by their code points. -/
theorem isUpper_iff {c : Char} : c.isUpper = true ↔ 65 ≤ c.toNat ∧ c.toNat ≤ 90 :=
  decide_eq_true_iff

/-- The small letters of ASCII, by their code points. -/
theorem isLower_iff {c : Char} : c.isLower = true ↔ 97 ≤ c.toNat ∧ c.toNat ≤ 122 := by
  show (decide (c.val ≥ 97) && decide (c.val ≤ 122)) = true ↔ _
  rw [Bool.and_eq_true, decide_eq_true_iff, decide_eq_true_iff]
  exact Iff.rfl

/-- The digits of ASCII, by their code points. -/
theorem isDigit_iff {c : Char} : c.isDigit = true ↔ 48 ≤ c.toNat ∧ c.toNat ≤ 57 := by
  show (decide (c.val ≥ 48) && decide (c.val ≤ 57)) = true ↔ _
  rw [Bool.and_eq_true, decide_eq_true_iff, decide_eq_true_iff]
  exact Iff.rfl

/-- The letters of ASCII, by their code points. -/
theorem isAlpha_iff {c : Char} :
    c.isAlpha = true ↔
      (65 ≤ c.toNat ∧ c.toNat ≤ 90) ∨ (97 ≤ c.toNat ∧ c.toNat ≤ 122) := by
  show (c.isUpper || c.isLower) = true ↔ _
  rw [Bool.or_eq_true, isUpper_iff, isLower_iff]

/-- The letters and digits of ASCII, by their code points. -/
theorem isAlphanum_iff {c : Char} :
    c.isAlphanum = true ↔
      (65 ≤ c.toNat ∧ c.toNat ≤ 90) ∨ (97 ≤ c.toNat ∧ c.toNat ≤ 122) ∨
        (48 ≤ c.toNat ∧ c.toNat ≤ 57) := by
  show (c.isAlpha || c.isDigit) = true ↔ _
  rw [Bool.or_eq_true, isAlpha_iff, isDigit_iff, or_assoc]

/-- Big letters are letters. -/
theorem isAlphanum_of_isUpper {c : Char} (h : c.isUpper = true) : c.isAlphanum = true :=
  isAlphanum_iff.2 (.inl (isUpper_iff.1 h))

/-- Letters and digits break no line. -/
theorem isLineBreak_of_isAlphanum {c : Char} (h : c.isAlphanum = true) :
    isLineBreak c = false := by
  rw [isAlphanum_iff] at h
  simp only [isLineBreak, Bool.or_eq_false_iff, Bool.and_eq_false_iff, decide_eq_false_iff_not,
    beq_eq_false_iff_ne]
  omega

/-- A text is looked through for breaks. -/
theorem unbroken_of_all {cs : List Char} (h : (cs.all fun c => !isLineBreak c) = true) :
    ∀ c ∈ cs, isLineBreak c = false := by
  intro c hc
  simpa using List.all_eq_true.1 h c hc

/-! ## Texts that end in a break -/

/-- The text ends in a break. -/
def EndsInBreak (cs : List Char) : Prop := ∃ c, cs.getLast? = some c ∧ isLineBreak c = true

/-- A carriage return at the end of one text and a line feed at the start of the next would become
one break. -/
def Fuses (cs ds : List Char) : Prop := cs.getLast? = some '\r' ∧ ds.head? = some '\n'

/-- A line feed breaks lines. -/
theorem isLineBreak_lf : isLineBreak '\n' = true := by decide

/-- A carriage return breaks lines. -/
theorem isLineBreak_cr : isLineBreak '\r' = true := by decide

/-- A text that ends in a line feed ends in a break. -/
theorem endsInBreak_of_lf {cs : List Char} (h : cs.getLast? = some '\n') : EndsInBreak cs :=
  ⟨'\n', h, isLineBreak_lf⟩

/-- A text that ends in a line feed fuses with nothing. -/
theorem not_fuses_of_lf {cs : List Char} (h : cs.getLast? = some '\n') (ds : List Char) :
    ¬Fuses cs ds := by
  rintro ⟨hr, -⟩
  rw [h] at hr
  exact absurd hr (by decide)

/-- What stands before a text does not matter for what it fuses with. -/
theorem Fuses.prepend {cs ds : List Char} (h : Fuses cs ds) (front : List Char) :
    Fuses (front ++ cs) ds := by
  refine ⟨?_, h.2⟩
  rw [List.getLast?_append, h.1]
  rfl

/-- A character in front does not change how a text fuses with what follows. -/
theorem Fuses.cons {cs ds : List Char} (h : Fuses cs ds) (c : Char) : Fuses (c :: cs) ds :=
  h.prepend [c]

/-- A text fuses with the start of another. -/
theorem Fuses.of_append {cs ds es : List Char} (hds : ds ≠ []) (h : Fuses cs (ds ++ es)) :
    Fuses cs ds :=
  ⟨h.1, by rw [← List.head?_append_of_ne_nil ds hds]; exact h.2⟩

/-- One character fuses with what follows just when the two are a carriage return and a line feed.
-/
theorem fuses_singleton_iff {c : Char} {cs : List Char} :
    Fuses [c] cs ↔ c = '\r' ∧ ∃ rest, cs = '\n' :: rest := by
  simp [Fuses, List.head?_eq_some_iff]

/-- A character that is no break fuses with nothing. -/
theorem not_fuses_of_plain {c : Char} (hc : isLineBreak c = false) {cs : List Char} :
    ¬Fuses [c] cs := fun h => by
  rw [(fuses_singleton_iff.1 h).1, isLineBreak_cr] at hc
  exact absurd hc (by simp)

/-- A text that ends in a break is not empty. -/
theorem EndsInBreak.ne_nil {cs : List Char} (h : EndsInBreak cs) : cs ≠ [] := by
  rintro rfl
  obtain ⟨c, hc, -⟩ := h
  simp at hc

/-- What comes first in a text does not matter for how it ends. -/
theorem endsInBreak_append (cs : List Char) {ds : List Char} (hd : ds ≠ []) :
    EndsInBreak (cs ++ ds) ↔ EndsInBreak ds := by
  simp only [EndsInBreak, List.getLast?_append_of_ne_nil cs hd]

/-- A character in front does not change how a text ends. -/
theorem endsInBreak_cons {c : Char} {ds : List Char} (hd : ds ≠ []) :
    EndsInBreak (c :: ds) ↔ EndsInBreak ds :=
  endsInBreak_append [c] hd

/-! ## Cutting a text apart -/

/-- A character goes to the first line, whatever lines follow. -/
theorem consLine_append (c : Char) {ls : List (List Char)} (h : ls ≠ []) (ms : List (List Char)) :
    consLine c ls ++ ms = consLine c (ls ++ ms) := by
  cases ls with
  | nil => exact absurd rfl h
  | cons l ls => rfl

/-- A text that is not empty has a line. -/
theorem lines_ne_nil {cs : List Char} (h : cs ≠ []) : lines cs ≠ [] := by
  intro hl
  have hf := flatten_lines cs
  rw [hl] at hf
  exact h hf.symm

/-- A carriage return and a line feed are one break, which is a line of its own here. -/
theorem lines_cr_lf (cs : List Char) : lines ('\r' :: '\n' :: cs) = ['\r', '\n'] :: lines cs := by
  rfl

/-- A character that starts no pair of breaks is a line, or belongs to the first line. -/
theorem lines_single {c : Char} {cs : List Char} (h : ∀ rest, c = '\r' → cs ≠ '\n' :: rest) :
    lines (c :: cs) = if isLineBreak c then [c] :: lines cs else consLine c (lines cs) := by
  rw [lines]
  exact h

/-- A break at the start is a line of its own, unless it is the first half of one. -/
theorem lines_break {c : Char} (hc : isLineBreak c = true) {cs : List Char}
    (h : ¬Fuses [c] cs) : lines (c :: cs) = [c] :: lines cs := by
  rw [lines_single fun rest hcr hrest => h (fuses_singleton_iff.2 ⟨hcr, rest, hrest⟩), if_pos hc]

/-- Another character belongs to the first line. -/
theorem lines_cons {c : Char} (hc : isLineBreak c = false) (cs : List Char) :
    lines (c :: cs) = consLine c (lines cs) := by
  have hcr : c ≠ '\r' := by
    rintro rfl
    exact absurd hc (by decide)
  rw [lines_single fun rest heq => absurd heq hcr, if_neg (by simp [hc])]

/-- **A text that ends in a break is cut apart from what follows it**, unless a carriage return
meets a line feed there. The two would be one break then, where there had been two. -/
theorem lines_append {cs ds : List Char} (hc : EndsInBreak cs) (hf : ¬Fuses cs ds) :
    lines (cs ++ ds) = lines cs ++ lines ds := by
  induction cs using lines.induct with
  | case1 => exact absurd rfl hc.ne_nil
  | case2 rest ih =>
    rw [List.cons_append, List.cons_append, lines_cr_lf, lines_cr_lf, List.cons_append]
    by_cases hr : rest = []
    · subst hr
      rfl
    · have hrest : EndsInBreak rest :=
        (endsInBreak_append ['\r', '\n'] hr).1 hc
      rw [ih hrest fun hfuse => hf (hfuse.prepend ['\r', '\n'])]
  | case3 c rest hpair hbreak ih =>
    -- The break is no carriage return before a line feed, and ends a line of its own.
    have hpair' : ¬Fuses [c] rest := fun hfuse => by
      obtain ⟨hcr, tail, hrest⟩ := fuses_singleton_iff.1 hfuse
      exact hpair tail hcr hrest
    rw [lines_break hbreak hpair', List.cons_append]
    by_cases hr : rest = []
    · subst hr
      rw [List.nil_append, lines_break hbreak (by simpa [Fuses] using hf)]
      rfl
    · have hrest : EndsInBreak rest := (endsInBreak_cons hr).1 hc
      have hhead : ¬Fuses [c] (rest ++ ds) := fun hfuse => hpair' (hfuse.of_append hr)
      rw [lines_break hbreak hhead, ih hrest fun hfuse => hf (hfuse.cons c), List.cons_append]
  | case4 c rest hpair hplain ih =>
    have hplain' : isLineBreak c = false := by simpa using hplain
    -- The text ends in a break, which is still to come.
    have hr : rest ≠ [] := by
      rintro rfl
      obtain ⟨d, hd, hb⟩ := hc
      obtain rfl : c = d := by simpa using hd
      exact hplain hb
    have hrest : EndsInBreak rest := (endsInBreak_cons hr).1 hc
    rw [List.cons_append, lines_cons hplain', lines_cons hplain',
      consLine_append c (lines_ne_nil hr), ih hrest fun hfuse => hf (hfuse.cons c)]

/-! ## Lines without their breaks -/

/-- A text before a line feed. -/
theorem stripBreak_lf {cs : List Char} (h : ∀ c ∈ cs.getLast?, c ≠ '\r') :
    stripBreak (cs ++ ['\n']) = cs := by
  have hreverse : (cs ++ ['\n']).reverse = '\n' :: cs.reverse := by simp
  unfold stripBreak
  rw [hreverse]
  cases hcs : cs.reverse with
  | nil => simpa using hcs
  | cons c rest =>
    have hlast : c ≠ '\r' := by
      refine h c ?_
      rw [List.getLast?_eq_head?_reverse, hcs]
      rfl
    split
    · rename_i heq
      exact absurd (List.cons.inj (List.cons.inj heq).2).1 hlast
    · rename_i heq
      rw [← (List.cons.inj heq).2, ← hcs, List.reverse_reverse]
    · rename_i heq
      exact absurd (List.cons.inj heq).1 (by decide)
    · rename_i hno _
      exact absurd rfl (hno _)

/-! ## Lists of lines -/

/-- One line stands before another in a text: it ends in a break of its own. -/
def Precedes (l m : List Char) : Prop := EndsInBreak l ∧ ¬Fuses l m

/-- **The lists of lines that come from a text**: each is one line, and each but the last ends in a
break that the next line does not lengthen. -/
structure IsLines (ls : List (List Char)) : Prop where
  one : ∀ l ∈ ls, lines l = [l]
  chain : ls.IsChain Precedes

/-- No lines are the lines of the empty text. -/
theorem isLines_nil : IsLines [] := ⟨by simp, .nil⟩

/-- One line in front of others. -/
theorem isLines_cons {l : List Char} {ls : List (List Char)} :
    IsLines (l :: ls) ↔ lines l = [l] ∧ (∀ m ∈ ls.head?, Precedes l m) ∧ IsLines ls := by
  constructor
  · rintro ⟨h1, h2⟩
    rw [List.isChain_cons] at h2
    exact ⟨h1 l List.mem_cons_self, h2.1, fun m hm => h1 m (List.mem_cons_of_mem _ hm), h2.2⟩
  · rintro ⟨h1, h2, h3, h4⟩
    refine ⟨?_, List.isChain_cons.2 ⟨h2, h4⟩⟩
    intro m hm
    rcases List.mem_cons.1 hm with rfl | hm
    · exact h1
    · exact h3 m hm

/-- Lists of lines one after the other. -/
theorem isLines_append {ls ms : List (List Char)} :
    IsLines (ls ++ ms) ↔ IsLines ls ∧ IsLines ms ∧
      ∀ l ∈ ls.getLast?, ∀ m ∈ ms.head?, Precedes l m := by
  constructor
  · rintro ⟨h1, h2⟩
    rw [List.isChain_append] at h2
    exact ⟨⟨fun l hl => h1 l (List.mem_append_left _ hl), h2.1⟩,
      ⟨fun l hl => h1 l (List.mem_append_right _ hl), h2.2.1⟩, h2.2.2⟩
  · rintro ⟨⟨h1, h2⟩, ⟨h3, h4⟩, h5⟩
    refine ⟨?_, List.isChain_append.2 ⟨h2, h4, h5⟩⟩
    intro l hl
    rcases List.mem_append.1 hl with hl | hl
    · exact h1 l hl
    · exact h3 l hl

/-- Lines that stand together in a text are lines. -/
theorem IsLines.within {ls ms : List (List Char)} (h : IsLines ls) (hms : ms <:+: ls) :
    IsLines ms := by
  obtain ⟨front, back, rfl⟩ := hms
  exact (isLines_append.1 (isLines_append.1 h).1).2.1

/-- A line is never empty: the empty text has none. -/
theorem ne_nil_of_lines_eq {l : List Char} (h : lines l = [l]) : l ≠ [] := by
  rintro rfl
  simp at h

/-- The text of lines starts like the first of them. -/
theorem head?_flatten {l : List Char} {ls : List (List Char)} (h : l ≠ []) :
    (l :: ls).flatten.head? = l.head? := by
  rw [List.flatten_cons, List.head?_append_of_ne_nil _ h]

/-- **Lines are the lines of the text that they make up.** The text has no other breaks than those
that end its lines. -/
theorem lines_flatten {ls : List (List Char)} (h : IsLines ls) : lines ls.flatten = ls := by
  induction ls with
  | nil => rfl
  | cons l ls ih =>
    obtain ⟨hl, hnext, hls⟩ := isLines_cons.1 h
    cases ls with
    | nil => simpa using hl
    | cons m ms =>
      have hm : m ≠ [] := ne_nil_of_lines_eq (isLines_cons.1 hls).1
      obtain ⟨hbreak, hfuse⟩ := hnext m rfl
      have hfuse' : ¬Fuses l (m :: ms).flatten := by
        rintro ⟨h1, h2⟩
        exact hfuse ⟨h1, by rwa [head?_flatten hm] at h2⟩
      rw [List.flatten_cons, lines_append hbreak hfuse', hl, ih hls, List.singleton_append]

/-- A character that is no break in front of the first line. -/
theorem isLines_consLine {c : Char} (hc : isLineBreak c = false) {ls : List (List Char)}
    (h : IsLines ls) : IsLines (consLine c ls) := by
  cases ls with
  | nil =>
    refine isLines_cons.2 ⟨?_, by simp, isLines_nil⟩
    rw [lines_cons hc, lines_nil]
    rfl
  | cons l ls =>
    obtain ⟨hl, hnext, hls⟩ := isLines_cons.1 h
    have hne : l ≠ [] := ne_nil_of_lines_eq hl
    refine isLines_cons.2 ⟨?_, ?_, hls⟩
    · rw [lines_cons hc, hl]
      rfl
    · intro m hm
      obtain ⟨hbreak, hfuse⟩ := hnext m hm
      refine ⟨(endsInBreak_cons hne).2 hbreak, ?_⟩
      rintro ⟨h1, h2⟩
      exact hfuse ⟨by rw [← h1]; exact (List.getLast?_append_of_ne_nil [c] hne).symm, h2⟩

/-- **The lines of every text are a list of lines.** Each of them has one break, at its end; only
the last may have none. -/
theorem isLines_lines (cs : List Char) : IsLines (lines cs) := by
  induction cs using lines.induct with
  | case1 => exact isLines_nil
  | case2 rest ih =>
    rw [lines_cr_lf]
    refine isLines_cons.2 ⟨by rw [lines_cr_lf, lines_nil], ?_, ih⟩
    intro m _
    exact ⟨endsInBreak_of_lf rfl, not_fuses_of_lf rfl m⟩
  | case3 c rest hpair hbreak ih =>
    have hfuse : ∀ ds, ds.head? = rest.head? → ¬Fuses [c] ds := by
      rintro ds hds ⟨h1, h2⟩
      obtain rfl : c = '\r' := by simpa using h1
      rw [hds] at h2
      cases rest with
      | nil => simp at h2
      | cons d tail => exact hpair tail rfl (by simpa using h2)
    rw [lines_break hbreak (hfuse rest rfl)]
    refine isLines_cons.2 ⟨by rw [lines_break hbreak (by simp [Fuses]), lines_nil], ?_, ih⟩
    intro m hm
    refine ⟨⟨c, rfl, hbreak⟩, hfuse m ?_⟩
    -- The next line starts with the next character.
    have hne : m ≠ [] := ne_nil_of_mem_lines (List.mem_of_mem_head? hm)
    obtain ⟨tail, htail⟩ : ∃ tail, lines rest = m :: tail := by
      cases hl : lines rest with
      | nil => rw [hl] at hm; simp at hm
      | cons x xs => rw [hl] at hm; exact ⟨xs, by simpa using hm⟩
    rw [← flatten_lines rest, htail, head?_flatten hne]
  | case4 c rest hpair hplain ih =>
    rw [lines_cons (by simpa using hplain)]
    exact isLines_consLine (by simpa using hplain) ih

end FormScaffold.Text
