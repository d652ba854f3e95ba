import FormScaffold.Proofs.Text.Words
import FormScaffold.View.Annotation

/-! # Text in comments

Text of the metadata stands in a comment on one line.

* **`isLineBreak_of_mem_commentLine`** — it breaks no line;
* **`words_commentLine_ne_nil`** — it is not blank unless the text is;
* **`isUnclosed_commentLine`** — it does not close a block comment, by itself or with the text in
  front of it and behind it. -/

namespace FormScaffold.View

open Text

/-- Splitting closing marks only adds spaces. -/
theorem eq_or_mem_of_mem_splitClosers {cs : List Char} {c : Char} (h : c ∈ splitClosers cs) :
    c = ' ' ∨ c ∈ cs := by
  induction cs using splitClosers.induct with
  | case1 rest ih =>
    rw [splitClosers] at h
    simp only [List.mem_cons] at h ⊢
    rcases h with rfl | rfl | rfl | h
    · exact .inr (.inl rfl)
    · exact .inl rfl
    · exact .inr (.inr (.inl rfl))
    · rcases ih h with rfl | h
      · exact .inl rfl
      · exact .inr (.inr (.inr h))
  | case2 c' rest hno ih =>
    rw [splitClosers.eq_2 c' rest hno] at h
    rcases List.mem_cons.1 h with rfl | h
    · exact .inr List.mem_cons_self
    · rcases ih h with rfl | h
      · exact .inl rfl
      · exact .inr (List.mem_cons_of_mem _ h)
  | case3 => simp at h

/-- Splitting closing marks leaves every character. -/
theorem mem_splitClosers {cs : List Char} {c : Char} (h : c ∈ cs) : c ∈ splitClosers cs := by
  induction cs using splitClosers.induct with
  | case1 rest ih =>
    rw [splitClosers]
    simp only [List.mem_cons] at h ⊢
    rcases h with rfl | rfl | h
    · exact .inl rfl
    · exact .inr (.inr (.inl rfl))
    · exact .inr (.inr (.inr (ih h)))
  | case2 c' rest hno ih =>
    rw [splitClosers.eq_2 c' rest hno]
    rcases List.mem_cons.1 h with rfl | h
    · exact List.mem_cons_self
    · exact List.mem_cons_of_mem _ (ih h)
  | case3 => simp at h

/-- What stands in a line of a comment is a space or no blank. -/
theorem eq_or_isBlank_of_mem_commentLine {s : String} {c : Char}
    (h : c ∈ (commentLine s).toList) : c = ' ' ∨ isBlank c = false := by
  rw [commentLine, String.toList_ofList] at h
  rcases eq_or_mem_of_mem_splitClosers h with rfl | h
  · exact .inl rfl
  · rcases mem_intercalate h with h | ⟨w, hw, hc⟩
    · exact .inl (List.mem_singleton.1 h)
    · exact .inr (isBlank_of_mem_words hw c hc)

/-- **A line of a comment breaks no line.** Breaks are blanks, at which the text is cut into words,
and the words are put together with single blanks. -/
theorem isLineBreak_of_mem_commentLine {s : String} {c : Char}
    (h : c ∈ (commentLine s).toList) : isLineBreak c = false := by
  rcases eq_or_isBlank_of_mem_commentLine h with rfl | h
  · decide
  · exact isLineBreak_of_not_isBlank h

/-- **A line of a comment is not blank** when the text is not. The states of a transition that is
read are not blank, so that something stands at both ends of its arrow. -/
theorem words_commentLine_ne_nil {s : String} {c : Char} (hc : c ∈ s.toList)
    (hblank : isBlank c = false) : words (commentLine s).toList ≠ [] := by
  obtain ⟨w, ws, hws⟩ := List.exists_cons_of_ne_nil (words_ne_nil hc hblank)
  have hw : w ∈ words s.toList := by rw [hws]; exact List.mem_cons_self
  obtain ⟨d, w', rfl⟩ := List.exists_cons_of_ne_nil (ne_nil_of_mem_words hw)
  have hd : d ∈ oneSpaced s.toList := by
    rw [oneSpaced, hws]
    exact mem_intercalate_of_mem List.mem_cons_self List.mem_cons_self
  rw [commentLine, String.toList_ofList]
  exact words_ne_nil (mem_splitClosers hd) (isBlank_of_mem_words hw d List.mem_cons_self)

/-! ## Closing marks -/

/-- Neighbours that are no closing mark of a block comment. -/
def IsUnclosing (c d : Char) : Prop := ¬(c = '*' ∧ d = '/')

instance : DecidableRel IsUnclosing := fun c d =>
  inferInstanceAs (Decidable (¬(c = '*' ∧ d = '/')))

/-- A text that closes no block comment. -/
abbrev IsUnclosed (cs : List Char) : Prop := cs.IsChain IsUnclosing

/-- A text that closes no block comment has no closing mark in it. -/
theorem IsUnclosed.not_infix {cs : List Char} (h : IsUnclosed cs) : ¬['*', '/'] <:+: cs := by
  rintro ⟨front, back, heq⟩
  have hsplit : cs = front ++ '*' :: '/' :: back := by rw [← heq]; simp
  exact List.isChain_iff_forall_rel_of_append_cons_cons.1 h hsplit ⟨rfl, rfl⟩

/-- A text without slashes closes no comment. -/
theorem isUnclosed_of_notMem {cs : List Char} (h : '/' ∉ cs) : IsUnclosed cs := by
  refine List.isChain_iff_forall_rel_of_append_cons_cons.2 ?_
  rintro c d front back rfl ⟨-, rfl⟩
  simp at h

/-- Texts close no block comment together when neither does, and no slash is at the seam. -/
theorem isUnclosed_append {as bs : List Char} (ha : IsUnclosed as) (hb : IsUnclosed bs)
    (hseam : as.getLast? ≠ some '*' ∨ bs.head? ≠ some '/') : IsUnclosed (as ++ bs) := by
  refine List.isChain_append.2 ⟨ha, hb, ?_⟩
  rintro c hc d hd ⟨rfl, rfl⟩
  exact hseam.elim (· hc) (· hd)

/-- Splitting closing marks leaves the first character. -/
theorem head?_splitClosers (cs : List Char) : (splitClosers cs).head? = cs.head? := by
  cases cs using splitClosers.induct with
  | case1 rest => rw [splitClosers]; rfl
  | case2 c rest hno => rw [splitClosers.eq_2 c rest hno]; rfl
  | case3 => rfl

/-- **No closing mark is left**, nor does one come about from what splitting puts side by side. A
blank is put into each closing mark, from left to right. -/
theorem isUnclosed_splitClosers (cs : List Char) : IsUnclosed (splitClosers cs) := by
  induction cs using splitClosers.induct with
  | case1 rest ih =>
    rw [splitClosers]
    have hslash : IsUnclosed ('/' :: splitClosers rest) := by
      refine List.isChain_cons.2 ⟨?_, ih⟩
      rintro d - ⟨hstar, -⟩
      exact absurd hstar (by decide)
    exact .cons_cons (by decide) (.cons_cons (by decide) hslash)
  | case2 c rest hno ih =>
    rw [splitClosers.eq_2 c rest hno]
    refine List.isChain_cons.2 ⟨?_, ih⟩
    -- What follows a star starts as before, which is with no slash.
    rintro d hd ⟨rfl, rfl⟩
    rw [head?_splitClosers] at hd
    obtain ⟨tail, rfl⟩ := List.head?_eq_some_iff.1 hd
    exact hno tail rfl rfl
  | case3 => exact .nil

/-- **A text that is made a line of a comment closes no comment.** -/
theorem isUnclosed_commentLine (s : String) : IsUnclosed (commentLine s).toList := by
  rw [commentLine, String.toList_ofList]
  exact isUnclosed_splitClosers _

end FormScaffold.View
