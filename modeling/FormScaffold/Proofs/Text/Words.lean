import FormScaffold.Proofs.Text.Lines
import FormScaffold.Text.Blank
import Mathlib.Data.List.TakeDrop
import Mathlib.Data.List.TakeWhile

/-! # The words of a text

Words are what stands between blanks. A blank anywhere in a text cuts its words apart, whatever
stands around it:

* **`words_append_cons`** — the words of a text with a blank in it;
* `words_of_plain`, `words_of_blank` — a text without blanks is one word, blanks alone are none;
* `isBlank_of_mem_words` — words hold no blanks, hence no breaks;
* **`isTrimmed_trim`** — a text without its blank ends, which stays as it is. -/

namespace FormScaffold.Text

/-- Every break is a blank. -/
theorem isBlank_of_isLineBreak {c : Char} (h : isLineBreak c = true) : isBlank c = true := by
  simp only [isLineBreak, Bool.or_eq_true, Bool.and_eq_true, decide_eq_true_eq, beq_iff_eq] at h
  simp only [isBlank, CharSet.has, blanks, List.any_cons, List.any_nil, Bool.or_eq_true,
    Bool.and_eq_true, decide_eq_true_eq]
  omega

/-- Of the characters up to the first separator beyond ASCII, those after the space are no
blanks. -/
theorem isBlank_of_code {c : Char} (h : 0x20 < c.toNat ∧ c.toNat < 0x85) : isBlank c = false := by
  rw [← Bool.not_eq_true]
  simp only [isBlank, CharSet.has, blanks, List.any_cons, List.any_nil, Bool.or_eq_true,
    Bool.and_eq_true, decide_eq_true_eq, Bool.false_eq_true, or_false]
  omega

/-- What is no blank breaks no line. -/
theorem isLineBreak_of_not_isBlank {c : Char} (h : isBlank c = false) : isLineBreak c = false := by
  cases hc : isLineBreak c with
  | false => rfl
  | true =>
    rw [isBlank_of_isLineBreak hc] at h
    exact absurd h (by decide)

/-- The empty text has no words. -/
@[simp] theorem words_nil : words [] = [] := rfl

/-- **A blank cuts the words of a text apart.** No word reaches over it. -/
theorem words_append_cons (cs : List Char) {c : Char} (hc : isBlank c = true) (ds : List Char) :
    words (cs ++ c :: ds) = words cs ++ words ds := by
  rw [words, List.splitOnP_append_cons cs ds hc, List.filter_append, words, words]

/-- A blank in front of a text adds no word. -/
theorem words_cons {c : Char} (hc : isBlank c = true) (cs : List Char) :
    words (c :: cs) = words cs := words_append_cons [] hc cs

/-- A text without blanks is one word. -/
theorem words_of_plain {cs : List Char} (hne : cs ≠ []) (h : ∀ c ∈ cs, isBlank c = false) :
    words cs = [cs] := by
  rw [words, List.splitOnP_eq_singleton h]
  simp [hne]

/-- Blanks alone hold no word. -/
theorem words_of_blank {cs : List Char} (h : ∀ c ∈ cs, isBlank c = true) : words cs = [] := by
  induction cs with
  | nil => rfl
  | cons c cs ih =>
    rw [words_cons (h c List.mem_cons_self), ih fun d hd => h d (List.mem_cons_of_mem _ hd)]

/-- A word before a blank, or before the end, is the first word of the text. -/
theorem words_append {w cs : List Char} (hne : w ≠ []) (hw : ∀ c ∈ w, isBlank c = false)
    (hcs : ∀ c ∈ cs.head?, isBlank c = true) : words (w ++ cs) = w :: words cs := by
  cases cs with
  | nil => rw [List.append_nil, words_of_plain hne hw, words_nil]
  | cons c cs =>
    have hc : isBlank c = true := hcs c rfl
    rw [words_append_cons w hc, words_of_plain hne hw, words_cons hc, List.singleton_append]

/-- A text that is not all blanks holds a word. -/
theorem words_ne_nil {cs : List Char} {c : Char} (hc : c ∈ cs) (hblank : isBlank c = false) :
    words cs ≠ [] := by
  induction cs with
  | nil => simp at hc
  | cons d cs ih =>
    by_cases hd : isBlank d = true
    · rw [words_cons hd]
      refine ih ?_
      rcases List.mem_cons.1 hc with rfl | hc
      · rw [hd] at hblank
        exact absurd hblank (by decide)
      · exact hc
    · -- The text starts with a word, which runs up to its first blank.
      have hfirst : ((d :: cs).takeWhile (!isBlank ·)) ≠ [] := by simp [hd]
      rw [← List.takeWhile_append_dropWhile (p := (!isBlank ·)) (l := d :: cs),
        words_append hfirst]
      · simp
      · intro e he
        simpa using List.mem_takeWhile_imp he
      · intro e he
        have hstop := List.head?_dropWhile_not (!isBlank ·) (d :: cs)
        rw [Option.mem_def.1 he] at hstop
        simpa using hstop

/-- The parts between separators hold none. -/
theorem not_of_mem_splitOnP {α : Type} {p : α → Bool} {xs part : List α}
    (h : part ∈ xs.splitOnP p) : ∀ x ∈ part, p x = false := by
  induction xs generalizing part with
  | nil =>
    rw [List.splitOnP_nil, List.mem_singleton] at h
    simp [h]
  | cons y xs ih =>
    rw [List.splitOnP_cons_eq_if_modifyHead] at h
    split at h
    · rcases List.mem_cons.1 h with rfl | h
      · simp
      · exact ih h
    · rename_i hy
      obtain ⟨v, vs, hvs⟩ := List.exists_cons_of_ne_nil (List.splitOnP_ne_nil p xs)
      rw [hvs] at ih h
      intro x hx
      rcases List.mem_cons.1 h with rfl | h
      · rcases List.mem_cons.1 hx with rfl | hx
        · simpa using hy
        · exact ih List.mem_cons_self x hx
      · exact ih (List.mem_cons_of_mem _ h) x hx

/-- The parts between separators hold all the rest. -/
theorem flatten_splitOnP {α : Type} (p : α → Bool) (xs : List α) :
    (xs.splitOnP p).flatten = xs.filter fun x => !p x := by
  induction xs with
  | nil => simp
  | cons x xs ih =>
    rw [List.splitOnP_cons_eq_if_modifyHead, List.filter_cons, ← ih]
    cases hx : p x with
    | true => simp
    | false =>
      obtain ⟨part, parts, hparts⟩ := List.exists_cons_of_ne_nil (List.splitOnP_ne_nil p xs)
      simp [hparts]

/-- Words hold no blanks. -/
theorem isBlank_of_mem_words {cs w : List Char} (h : w ∈ words cs) :
    ∀ c ∈ w, isBlank c = false := not_of_mem_splitOnP (List.mem_filter.1 h).1

/-- What stands in a text of parts with something between them. -/
theorem mem_intercalate {α : Type} {x : α} {between : List α} {parts : List (List α)}
    (h : x ∈ between.intercalate parts) : x ∈ between ∨ ∃ part ∈ parts, x ∈ part := by
  induction parts with
  | nil => simp at h
  | cons part parts ih =>
    cases parts with
    | nil =>
      rw [List.intercalate_singleton] at h
      exact .inr ⟨part, List.mem_cons_self, h⟩
    | cons next parts =>
      rw [List.intercalate_cons_cons, List.mem_append, List.mem_append] at h
      rcases h with (h | h) | h
      · exact .inr ⟨part, List.mem_cons_self, h⟩
      · exact .inl h
      · rcases ih h with h | ⟨q, hq, hx⟩
        · exact .inl h
        · exact .inr ⟨q, List.mem_cons_of_mem _ hq, hx⟩

/-- Every part stands in a text of parts with something between them. -/
theorem mem_intercalate_of_mem {α : Type} {x : α} {between part : List α} {parts : List (List α)}
    (hpart : part ∈ parts) (hx : x ∈ part) : x ∈ between.intercalate parts := by
  induction parts with
  | nil => simp at hpart
  | cons first parts ih =>
    cases parts with
    | nil =>
      rw [List.intercalate_singleton, ← List.mem_singleton.1 hpart]
      exact hx
    | cons next parts =>
      rw [List.intercalate_cons_cons, List.mem_append, List.mem_append]
      rcases List.mem_cons.1 hpart with rfl | hpart
      · exact .inl (.inl hx)
      · exact .inr (ih hpart)

/-- No word is empty. -/
theorem ne_nil_of_mem_words {cs w : List Char} (h : w ∈ words cs) : w ≠ [] := by
  have := (List.mem_filter.1 h).2
  rintro rfl
  exact absurd this (by decide)

/-! ## Texts without blanks at their ends -/

/-- Neither the first nor the last character is blank. -/
structure IsTrimmed (cs : List Char) : Prop where
  head : ∀ c ∈ cs.head?, isBlank c = false
  last : ∀ c ∈ cs.getLast?, isBlank c = false

/-- What is left starts with something that is not left out. -/
theorem not_of_mem_head?_dropWhile {p : Char → Bool} {cs : List Char} {c : Char}
    (h : c ∈ (cs.dropWhile p).head?) : p c = false := by
  have hhead := List.head?_dropWhile_not p cs
  rw [Option.mem_def.1 h] at hhead
  exact hhead

/-- A text that starts with nothing to leave out stays. -/
theorem dropWhile_eq_self {p : Char → Bool} {cs : List Char} (h : ∀ c ∈ cs.head?, p c = false) :
    cs.dropWhile p = cs := by
  cases cs with
  | nil => rfl
  | cons c cs => rw [List.dropWhile_cons, h c rfl, if_neg Bool.false_ne_true]

/-- A text in front of what cannot go on with it. -/
theorem span_append_of_forall {p : Char → Bool} {cs rest : List Char} (h : ∀ c ∈ cs, p c = true)
    (hrest : ∀ c ∈ rest.head?, p c = false) : (cs ++ rest).span p = (cs, rest) := by
  have htake : rest.takeWhile p = [] := by
    cases rest with
    | nil => rfl
    | cons c rest => rw [List.takeWhile_cons, hrest c rfl, if_neg Bool.false_ne_true]
  rw [List.span_eq_takeWhile_dropWhile, List.takeWhile_append_of_pos h,
    List.dropWhile_append_of_pos h, htake, dropWhile_eq_self hrest, List.append_nil]

/-- **A text is trimmed when its blank ends are gone.** What is left has no blank at either end. -/
theorem isTrimmed_trim (cs : List Char) : IsTrimmed (trim cs) where
  head c hc := by
    -- What is left at the start was left before the end was cut off.
    have hprefix : trim cs <+: cs.dropWhile isBlank := by
      rw [← List.reverse_suffix, trim, dropEnds, dropEndWhile, List.reverse_reverse]
      exact List.dropWhile_suffix _
    obtain ⟨tail, htail⟩ := hprefix
    have hfirst : c ∈ (cs.dropWhile isBlank).head? := by
      rw [← htail, List.head?_append, Option.mem_def.1 hc]
      rfl
    exact not_of_mem_head?_dropWhile hfirst
  last c hc := by
    rw [trim, dropEnds, dropEndWhile, List.getLast?_reverse] at hc
    exact not_of_mem_head?_dropWhile hc

/-- A text stays as it is when neither end is dropped. -/
theorem dropEnds_eq_self {p : Char → Bool} {cs : List Char} (hhead : ∀ c ∈ cs.head?, p c = false)
    (hlast : ∀ c ∈ cs.getLast?, p c = false) : dropEnds p cs = cs := by
  rw [← List.head?_reverse] at hlast
  rw [dropEnds, dropEndWhile, dropWhile_eq_self hhead, dropWhile_eq_self hlast,
    List.reverse_reverse]

/-- A text that is trimmed stays as it is. -/
theorem IsTrimmed.trim_eq {cs : List Char} (h : IsTrimmed cs) : trim cs = cs :=
  dropEnds_eq_self h.head h.last

end FormScaffold.Text
