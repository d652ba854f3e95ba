import FormScaffold.Proofs.Text.Endings

/-! # Texts in the line ending of a file

A text that is merged into a file takes the line ending of the file: where that has a carriage
return, each line feed of the text gets one, and those that have one keep it.

* **`recast carriage cs`** — the text in the line ending of a file;
* `recast_cons`, `recast_lf`, `recast_cr_lf` — character by character;
* **`lines_recast`** — a text is recast line by line;
* `stripBreak_recast` — a line is the same without its break;
* `head?_recast` — with carriage returns, no line feed stands first;
* `recast_eq_inEnding`, `inEnding_inj` — texts that had no carriage returns. -/

namespace FormScaffold.Text

/-- The text with its line feeds as they are, or with a carriage return before each. -/
def recast (carriage : Bool) (cs : List Char) : List Char :=
  if carriage then toCarriage (dropCarriage cs) else cs

/-- Without carriage returns a text stays as it is. -/
@[simp] theorem recast_false (cs : List Char) : recast false cs = cs := rfl

/-- The empty text stays as it is. -/
@[simp] theorem recast_nil (carriage : Bool) : recast carriage [] = [] := by
  cases carriage <;> rfl

/-- A line feed is put into the ending. -/
theorem recast_lf (carriage : Bool) (cs : List Char) :
    recast carriage ('\n' :: cs) = inEnding carriage ['\n'] ++ recast carriage cs := by
  cases carriage <;> rfl

/-- A carriage return and a line feed stay as they are. -/
theorem recast_cr_lf (carriage : Bool) (cs : List Char) :
    recast carriage ('\r' :: '\n' :: cs) = '\r' :: '\n' :: recast carriage cs := by
  cases carriage <;> rfl

/-- A character that belongs to no line feed stays. -/
theorem recast_cons {c : Char} (hc : c ≠ '\n') {cs : List Char} (h : ¬Fuses [c] cs)
    (carriage : Bool) : recast carriage (c :: cs) = c :: recast carriage cs := by
  cases carriage with
  | false => rfl
  | true =>
    have hpair : ∀ rest, c = '\r' → cs = '\n' :: rest → False :=
      fun rest hcr hrest => h (fuses_singleton_iff.2 ⟨hcr, rest, hrest⟩)
    have hdrop := dropCarriage.eq_3 c cs hpair
    have hcons := inEnding_cons hc true (dropCarriage cs)
    rw [recast, if_pos rfl, hdrop]
    exact hcons

/-- Where line feeds have carriage returns, no line feed stands first. -/
theorem head?_recast (cs : List Char) : (recast true cs).head? ≠ some '\n' := by
  show (inEnding true (dropCarriage cs)).head? ≠ some '\n'
  cases dropCarriage cs with
  | nil => simp
  | cons d ds =>
    by_cases hd : d = '\n'
    · subst hd
      simp [inEnding, toCarriage]
    · rw [inEnding_cons hd]
      simpa using hd

/-- A carriage return at the end fuses with no text that is recast, unless it fused before. -/
theorem not_fuses_recast {c : Char} {cs : List Char} (h : ¬Fuses [c] cs) (carriage : Bool) :
    ¬Fuses [c] (recast carriage cs) := by
  cases carriage with
  | false => exact h
  | true =>
    rintro ⟨-, hhead⟩
    exact head?_recast cs hhead

/-- A text without line feeds in front stays. -/
theorem recast_append {as : List Char} (has : ∀ c ∈ as, c ≠ '\n') {bs : List Char}
    (h : ¬Fuses as bs) (carriage : Bool) :
    recast carriage (as ++ bs) = as ++ recast carriage bs := by
  induction as with
  | nil => rfl
  | cons c as ih =>
    obtain ⟨hc, has⟩ := List.forall_mem_cons.1 has
    by_cases hnil : as = []
    · subst hnil
      exact recast_cons hc h carriage
    · have hrest : ¬Fuses as bs := fun hfuse => h (hfuse.cons c)
      have hfirst : ¬Fuses [c] (as ++ bs) := fun hfuse =>
        has '\n' (List.mem_of_mem_head? (hfuse.of_append hnil).2) rfl
      rw [List.cons_append, recast_cons hc hfirst, ih has hrest, List.cons_append]

/-! ## Lines -/

/-- A character that breaks no line goes to the first line in either ending. -/
theorem map_recast_consLine {c : Char} (hc : isLineBreak c = false) (carriage : Bool)
    (ls : List (List Char)) :
    (consLine c ls).map (recast carriage) = consLine c (ls.map (recast carriage)) := by
  have hlf : c ≠ '\n' := by
    rintro rfl
    exact absurd hc (by decide)
  have hcr : ∀ cs, ¬Fuses [c] cs := fun _ => not_fuses_of_plain hc
  cases ls with
  | nil =>
    have hone : recast carriage [c] = [c] := by rw [recast_cons hlf (hcr []), recast_nil]
    simp [consLine, hone]
  | cons l ls => simp [consLine, recast_cons hlf (hcr l)]

/-- **A text is recast line by line.** A lone carriage return stays a break of its own. -/
theorem lines_recast (carriage : Bool) (cs : List Char) :
    lines (recast carriage cs) = (lines cs).map (recast carriage) := by
  induction cs using lines.induct with
  | case1 => rw [recast_nil, lines_nil, List.map_nil]
  | case2 rest ih =>
    rw [recast_cr_lf, lines_cr_lf, lines_cr_lf, List.map_cons, ih, recast_cr_lf, recast_nil]
  | case3 c rest hpair hbreak ih =>
    have hfuse : ¬Fuses [c] rest := fun hfuse => by
      obtain ⟨hcr, tail, hrest⟩ := fuses_singleton_iff.1 hfuse
      exact hpair tail hcr hrest
    rw [lines_break hbreak hfuse, List.map_cons, ← ih]
    by_cases hc : c = '\n'
    · subst hc
      -- A line feed may get a carriage return, and is one break with it.
      -- A line feed may get a carriage return, and is one break with it.
      rw [recast_lf, recast_lf, recast_nil]
      cases carriage with
      | false => exact lines_break hbreak hfuse
      | true => exact lines_cr_lf _
    · rw [recast_cons hc hfuse, recast_cons hc (by simp [Fuses]), recast_nil,
        lines_break hbreak (not_fuses_recast hfuse carriage)]
  | case4 c rest hpair hplain ih =>
    have hplain' : isLineBreak c = false := by simpa using hplain
    have hlf : c ≠ '\n' := by
      rintro rfl
      exact hplain isLineBreak_lf
    rw [recast_cons hlf (not_fuses_of_plain hplain'), lines_cons hplain', lines_cons hplain', ih,
      map_recast_consLine hplain']

/-- Lines are recast one by one. -/
theorem recast_flatten (carriage : Bool) {ls : List (List Char)} (h : IsLines ls) :
    recast carriage ls.flatten = (ls.map (recast carriage)).flatten := by
  rw [← flatten_lines (recast carriage ls.flatten), lines_recast, lines_flatten h]

/-- The break at the end of a line is dropped whatever the ending. -/
theorem stripBreak_recast {l : List Char} (hline : lines l = [l]) (carriage : Bool) :
    stripBreak (recast carriage l) = stripBreak l := by
  rcases exists_of_line hline with hl | ⟨as, rfl, has⟩
  · have hself : recast carriage (l ++ []) = l ++ recast carriage [] :=
      recast_append hl (by simp [Fuses]) carriage
    rw [List.append_nil, recast_nil, List.append_nil] at hself
    rw [hself]
  · by_cases hcr : as.getLast? = some '\r'
    · -- The line feed has its carriage return already.
      obtain ⟨front, rfl⟩ := List.getLast?_eq_some_iff.1 hcr
      have hfront : ∀ c ∈ front, c ≠ '\n' := fun c hc => has c (List.mem_append_left _ hc)
      have hbreak : recast carriage ['\r', '\n'] = ['\r', '\n'] := by
        rw [recast_cr_lf, recast_nil]
      rw [List.append_assoc, recast_append hfront (by simp [Fuses]) carriage,
        List.singleton_append, hbreak]
    · rw [recast_append has (fun h => hcr h.1) carriage, recast_lf, recast_nil]
      cases carriage with
      | false => rfl
      | true =>
        have hstrip : stripBreak (as ++ ['\n']) = as := by
          refine stripBreak_lf fun c hc => ?_
          rintro rfl
          exact hcr hc
        rw [hstrip]
        simp [inEnding, toCarriage, stripBreak]

/-! ## Texts without carriage returns -/

/-- A text without carriage returns is recast by putting it into the ending. -/
theorem recast_eq_inEnding {cs : List Char} (h : ∀ c ∈ cs, c ≠ '\r') (carriage : Bool) :
    recast carriage cs = inEnding carriage cs := by
  rw [recast, dropCarriage_eq_self h, inEnding]

/-- **What was put into an ending is found again**, when it had no carriage returns. So no text is
lost when its ending changes. -/
theorem inEnding_inj {as bs : List Char} (has : ∀ c ∈ as, c ≠ '\r') (hbs : ∀ c ∈ bs, c ≠ '\r')
    {carriage : Bool} (h : inEnding carriage as = inEnding carriage bs) : as = bs := by
  have hdrop : ∀ cs : List Char, (∀ c ∈ cs, c ≠ '\r') → dropCarriage (toCarriage cs) = cs := by
    intro cs hcs
    induction cs with
    | nil => rfl
    | cons c cs ih =>
      have hrest := ih fun d hd => hcs d (List.mem_cons_of_mem _ hd)
      by_cases hc : c = '\n'
      · subst hc
        have hcons : toCarriage ('\n' :: cs) = '\r' :: '\n' :: toCarriage cs := rfl
        rw [hcons, dropCarriage, hrest]
      · have hcons : toCarriage (c :: cs) = c :: toCarriage cs := inEnding_cons hc true cs
        have hcr : c ≠ '\r' := hcs c List.mem_cons_self
        rw [hcons, dropCarriage.eq_3 _ _ fun _ hr _ => hcr hr, hrest]
  cases carriage with
  | false => exact h
  | true => rw [← hdrop as has, ← hdrop bs hbs]; exact congrArg dropCarriage h

end FormScaffold.Text
