import FormScaffold.Proofs.Region.Converging
import FormScaffold.Proofs.Text.CodePoints
import FormScaffold.Proofs.Text.Recasting

/-! # What a merge leaves in the owned regions

A text with any regions at all is merged into a file. Afterwards the owned regions of the file hold
what they hold in the text, in the line ending of the file.

* **`IsInner`** — what can stand between two marker lines: whole lines without markers;
* `isStacked_undergo` — filling and cutting regions leaves lines on top of each other;
* `innerOf_recast` — a region of a text in another line ending;
* `names_of_merge` — which regions a merge leaves;
* **`innerOf_of_merge`** — what the owned regions hold after a merge;
* **`IsRefilled`** — a file that holds the owned regions of a text. -/

namespace FormScaffold.Region

open Text

/-! ## Inner texts -/

/-- A text that can stand between two marker lines: whole lines, none of which is a marker. -/
structure IsInner (text : List Char) : Prop where
  plain : ∀ l ∈ Text.lines text, isMarkerLine l = false
  breaks : ∀ l ∈ Text.lines text, EndsInBreak l

/-- The inner text of a region is one. -/
theorem isInner_innerOf {text : List Char} {name : String} (h : name ∈ names text) :
    IsInner (innerOf text name) := by
  obtain ⟨o, i, c, ⟨-, -, hplain⟩, hin, hinner⟩ := exists_within_of_mem_names h
  have hstacked : IsStacked (o :: (i ++ [c])) := (isLines_lines text).isStacked.sublist hin.sublist
  obtain ⟨-, -, hrest⟩ := isStacked_cons.1 hstacked
  obtain ⟨-, -, hbreaks⟩ := isStacked_append.1 hrest
  have hlines : Text.lines i.flatten = i := lines_flatten (isLines_inner hin)
  rw [hinner]
  constructor
  · rw [hlines]
    exact hplain
  · rw [hlines]
    exact hbreaks (by simp)

/-! ## Other line endings -/

/-- The fresh text is put in the line ending of the file. -/
theorem adaptEnding_eq_recast (old fresh : List Char) :
    adaptEnding old fresh = recast (hasCarriage old) fresh := rfl

/-- A line marks the same in every line ending. -/
theorem ofLine_recast {l : List Char} (hline : Text.lines l = [l]) (carriage : Bool) :
    Mark.ofLine (recast carriage l) = Mark.ofLine l := by
  rw [Mark.ofLine, stripBreak_recast hline, ← Mark.ofLine]

/-- A text has its regions in every line ending. -/
theorem names_recast (carriage : Bool) (text : List Char) :
    names (recast carriage text) = names text := by
  refine (scan_congr ?_).2
  rw [lines_recast]
  exact marks_map fun l hl => ofLine_recast ((isLines_lines text).one l hl) carriage

/-- **The inner text of a region in another line ending.** A line feed at its start belongs to the
marker line in one ending and not in the other. -/
theorem innerOf_recast (carriage : Bool) {text : List Char} {name : String}
    (h : name ∈ names text) :
    innerOf (recast carriage text) name = recast carriage (innerOf text name) := by
  obtain ⟨o, i, c, ⟨ho, hc, hi⟩, hin, hinner⟩ := exists_within_of_mem_names h
  have hmark : ∀ l ∈ (Piece.region name o i c).lines,
      Mark.ofLine (recast carriage l) = Mark.ofLine l := fun l hl =>
    ofLine_recast ((isLines_lines text).one l (hin.subset hl)) carriage
  have hmarked : (Piece.region name (recast carriage o) (i.map (recast carriage))
      (recast carriage c)).IsMarked := by
    refine ⟨(hmark o (by simp)).trans ho, (hmark c (by simp)).trans hc, ?_⟩
    rw [← marks_eq_nil_iff, marks_map fun l hl => hmark l (by simp [hl]), marks_eq_nil_iff]
    exact hi
  have hin' : (Piece.region name (recast carriage o) (i.map (recast carriage))
      (recast carriage c)).lines <:+: Text.lines (recast carriage text) := by
    rw [lines_recast]
    simpa using hin.map (recast carriage)
  have hclean : (scan (recast carriage text)).problem? name = none :=
    problem?_of_mem_names (by rwa [names_recast])
  rw [(mem_names_of_within hmarked hin' hclean).2, hinner,
    recast_flatten carriage (isLines_inner hin)]

/-! ## Filling and cutting -/

/-- When something is left behind a piece, something stood there before. -/
theorem ne_nil_of_undergo {fate : String → Fate} {ps : List Piece}
    (h : (undergo fate ps).flatMap Piece.lines ≠ []) : ps.flatMap Piece.lines ≠ [] := by
  cases ps with
  | nil => exact h
  | cons p ps =>
    rw [List.flatMap_cons]
    cases p <;> simp

/-- The lines of an inner text stand between the marker lines of a region. -/
theorem isStacked_refilled {n : String} {o c : List Char} {i : List (List Char)} {text : List Char}
    (h : IsStacked (Piece.region n o i c).lines) (htext : IsInner text) :
    IsStacked (Piece.region n o (Text.lines text) c).lines := by
  rw [Piece.lines_region] at h ⊢
  obtain ⟨ho, hbreak, hlast⟩ := isStacked_cons.1 h
  obtain ⟨-, hc, -⟩ := isStacked_append.1 hlast
  refine isStacked_cons.2 ⟨ho, fun _ => hbreak (by simp), isStacked_append.2 ?_⟩
  exact ⟨(isLines_lines text).isStacked, hc, fun _ => htext.breaks⟩

/-- **Lines stay on top of each other when regions are filled or cut out.** What is put in are lines
as well, but the last one may meet the line that follows. -/
theorem isStacked_undergo {fate : String → Fate}
    (hfate : ∀ name text, fate name = .filled text → IsInner text) {ps : List Piece}
    (h : IsStacked (ps.flatMap Piece.lines)) :
    IsStacked ((undergo fate ps).flatMap Piece.lines) := by
  induction ps with
  | nil => exact h
  | cons p ps ih =>
    rw [List.flatMap_cons] at h
    obtain ⟨hp, hps, hbreaks⟩ := isStacked_append.1 h
    have hrest := ih hps
    have hbehind : (undergo fate ps).flatMap Piece.lines ≠ [] → ∀ l ∈ p.lines, EndsInBreak l :=
      fun hleft => hbreaks (ne_nil_of_undergo hleft)
    cases p with
    | line l =>
      rw [undergo_line, List.flatMap_cons]
      exact isStacked_append.2 ⟨hp, hrest, hbehind⟩
    | region n o i c =>
      cases hf : fate n with
      | kept =>
        rw [undergo_kept o i c ps hf, List.flatMap_cons]
        exact isStacked_append.2 ⟨hp, hrest, hbehind⟩
      | cut =>
        rw [undergo_cut o i c ps hf]
        exact hrest
      | filled text =>
        have hinner := hfate n text hf
        rw [undergo_filled o i c ps hf, List.flatMap_cons]
        refine isStacked_append.2 ⟨isStacked_refilled hp hinner, hrest, fun hleft l hl => ?_⟩
        -- The marker lines are the old ones, and the lines between them end in breaks.
        have hold := hbehind hleft
        rw [Piece.lines_region] at hl hold
        simp only [List.mem_cons, List.mem_append, List.not_mem_nil, or_false] at hl
        rcases hl with rfl | hl | rfl
        · exact hold l (by simp)
        · exact hinner.breaks l hl
        · exact hold l (by simp)

/-- Lines that all have a property still have it when regions are filled with such lines or cut
out. -/
theorem forall_lines_undergo {P : List Char → Prop} {fate : String → Fate}
    (hfate : ∀ name text, fate name = .filled text → ∀ l ∈ Text.lines text, P l) {ps : List Piece}
    (h : ∀ l ∈ ps.flatMap Piece.lines, P l) :
    ∀ l ∈ (undergo fate ps).flatMap Piece.lines, P l := by
  induction ps with
  | nil => exact h
  | cons p ps ih =>
    rw [List.flatMap_cons, List.forall_mem_append] at h
    obtain ⟨hp, hps⟩ := h
    have hrest := ih hps
    cases p with
    | line l =>
      rw [undergo_line, List.flatMap_cons, List.forall_mem_append]
      exact ⟨hp, hrest⟩
    | region n o i c =>
      cases hf : fate n with
      | kept =>
        rw [undergo_kept o i c ps hf, List.flatMap_cons, List.forall_mem_append]
        exact ⟨hp, hrest⟩
      | cut =>
        rw [undergo_cut o i c ps hf]
        exact hrest
      | filled text =>
        rw [undergo_filled o i c ps hf, List.flatMap_cons, List.forall_mem_append]
        refine ⟨?_, hrest⟩
        -- The marker lines are the old ones.
        rw [Piece.lines_region, List.forall_mem_cons, List.forall_mem_append] at hp ⊢
        exact ⟨hp.1, hfate n text hf, hp.2.2⟩

/-! ## Merging -/

section Merge

variable {old fresh : List Char} {ownedNames : List String} {path : String} {strategy : Strategy}
  {m : Merged}

/-- What a merge fills a region with can stand between marker lines. -/
theorem isInner_of_fateOf (h : merge old fresh ownedNames path strategy = .ok m)
    (strategy' : Strategy) {name : String} {text : List Char}
    (hfate : fateOf strategy' ownedNames (adaptEnding old fresh) name = .filled text) :
    IsInner text := by
  by_cases hname : name ∈ ownedNames
  · rw [fateOf_owned hname] at hfate
    obtain rfl := Fate.filled.inj hfate
    exact isInner_innerOf (mem_names_of_merge h name hname).2
  · unfold fateOf at hfate
    rw [if_neg hname] at hfate
    cases strategy' with
    | respectManual => exact absurd hfate (by simp)
    | overwriteAuto => exact absurd hfate (by simp)

/-- A merge that cuts nothing out keeps regions or fills them. -/
theorem fills_of_merge (h : merge old fresh ownedNames path strategy = .ok m) :
    Fills IsInner (fateOf .respectManual ownedNames (adaptEnding old fresh)) := by
  intro name
  by_cases hname : name ∈ ownedNames
  · exact .inr ⟨_, fateOf_owned hname _ _,
      isInner_of_fateOf h .respectManual (fateOf_owned hname _ _)⟩
  · exact .inl (if_neg hname)

variable (h : merge old fresh ownedNames path strategy = .ok m) (hn : ownedNames.Nodup)
include h hn

/-- The lines that make up a merged text. -/
theorem stacked_of_merge :
    IsStacked ((undergo (fateOf strategy ownedNames (adaptEnding old fresh))
        (pieces old)).flatMap Piece.lines) ∧
      m.text = ((undergo (fateOf strategy ownedNames (adaptEnding old fresh))
        (pieces old)).flatMap Piece.lines).flatten := by
  constructor
  · refine isStacked_undergo (fun name text hfate => isInner_of_fateOf h strategy hfate) ?_
    rw [pieces, flatMap_lines_piecesOf]
    exact (isLines_lines old).isStacked
  · rw [text_merged h hn, flatMap_text]

/-- **A merge of texts that can be written can be written**: its lines are lines of the file, and
lines of the owned regions of the fresh text in the line ending of the file. -/
theorem isSpelled_merged (hold : IsSpelled old) (hfresh : IsSpelled fresh) : IsSpelled m.text := by
  have hadapted : IsSpelled (adaptEnding old fresh) := by
    rw [adaptEnding_eq_recast]
    exact hfresh.recast _
  rw [(stacked_of_merge h hn).2]
  refine isSpelled_flatten (forall_lines_undergo (fun name text hfate => ?_) ?_)
  · have hinner : name ∈ ownedNames ∧ innerOf (adaptEnding old fresh) name = text := by
      by_cases hname : name ∈ ownedNames
      · rw [fateOf_owned hname] at hfate
        exact ⟨hname, Fate.filled.inj hfate⟩
      · unfold fateOf at hfate
        rw [if_neg hname] at hfate
        cases strategy <;> exact absurd hfate (by simp)
    obtain ⟨hname, rfl⟩ := hinner
    obtain ⟨o, i, c, -, hin, hinner⟩ :=
      exists_within_of_mem_names (mem_names_of_merge h name hname).2
    refine IsSpelled.lines ?_
    rw [hinner]
    exact isSpelled_flatten fun l hl => hadapted.lines l (hin.subset (by simp [hl]))
  · rw [pieces, flatMap_lines_piecesOf]
    exact hold.lines

/-- **The regions that a merge leaves**: all of them, or the owned ones. Which of the two it is
depends on the strategy. -/
theorem names_of_merge : names m.text =
    (names old).filter fun name => strategy == .respectManual || ownedNames.contains name := by
  have hfills := fills_of_merge h
  obtain ⟨hstacked, htext⟩ := stacked_of_merge h hn
  have hmarks := congrArg marks (lines_flatten_of_isStacked hstacked)
  rw [← htext, marks_fuse] at hmarks
  have hplain : ∀ text, IsInner text → ∀ l ∈ Text.lines text, isMarkerLine l = false :=
    fun _ ht => ht.plain
  cases strategy with
  | respectManual =>
    -- The marks are those of the file.
    have hmarked : ∀ p ∈ pieces old, p.IsMarked := fun p hp => isMarked_of_mem_piecesOf hp
    rw [marks_undergo hplain hfills hmarked, pieces, flatMap_lines_piecesOf] at hmarks
    rw [(scan_congr hmarks).2]
    exact (List.filter_eq_self.2 fun _ _ => rfl).symm
  | overwriteAuto =>
    -- The marks are those of the owned regions, one after the other.
    have hproper := isProper_undergo hplain hfills (isProper_of_problems (problems_of_merge h))
    have hkept : ∀ p ∈ keep (ownedNames.contains ·) (undergo
        (fateOf .respectManual ownedNames (adaptEnding old fresh)) (pieces old)), p.IsProper :=
      fun p hp => hproper p (List.mem_of_mem_filter hp)
    rw [undergo_overwriteAuto, marks_of_isProper hkept, pieceNames_keep, pieceNames_undergo hfills,
      ← names_eq_pieceNames] at hmarks
    exact (scan_of_marks hmarks ((sound_scan old).nodup.filter _)).2

/-- **The owned regions are found in the merged text.** No fate gives them a problem: their markers
stay where they were. -/
theorem mem_names_of_merged {name : String} (hname : name ∈ ownedNames) : name ∈ names m.text := by
  rw [names_of_merge h hn, List.mem_filter, List.contains_iff_mem.2 hname, Bool.or_true]
  exact ⟨(mem_names_of_merge h name hname).1, rfl⟩

/-- After a merge the owned regions hold what they hold in the text that was put in the line ending
of the file. Where the first line of a region ends in a carriage return, a line feed at the start of
the inner text joins it and is lost. -/
theorem innerOf_merged_adapted {name : String} (hname : name ∈ ownedNames) :
    innerOf m.text name = innerOf (adaptEnding old fresh) name ∨
      innerOf (adaptEnding old fresh) name = '\n' :: innerOf m.text name := by
  obtain ⟨hold, hnew⟩ := mem_names_of_merge h name hname
  have hclean := problem?_of_mem_names (mem_names_of_merged h hn hname)
  obtain ⟨hstacked, htext⟩ := stacked_of_merge h hn
  obtain ⟨o, c, ho, hc, hmem⟩ := exists_mem_undergo hold
    (fateOf_owned hname strategy (adaptEnding old fresh))
  have hplain := (isInner_innerOf hnew).plain
  rw [htext] at hclean
  obtain ⟨-, hfound⟩ := innerOf_flatten ⟨ho, hc, hplain⟩ hstacked
    (List.infix_of_mem_flatten (List.mem_map_of_mem hmem)) hclean
  rw [← htext, flatten_lines] at hfound
  exact hfound.imp_right fun hjoined => hjoined.2.2

/-- **After a merge the owned regions hold what they hold in the fresh text**, in the line ending of
the file, but for a line feed that was lost. -/
theorem innerOf_of_merge {name : String} (hname : name ∈ ownedNames) :
    innerOf m.text name = recast (hasCarriage old) (innerOf fresh name) ∨
      innerOf fresh name = '\n' :: innerOf m.text name := by
  have hnew := (mem_names_of_merge h name hname).2
  have hfresh : name ∈ names fresh := by rwa [← names_recast (hasCarriage old)]
  have hinner := innerOf_recast (hasCarriage old) hfresh
  rcases innerOf_merged_adapted h hn hname with hfound | hfound
  · exact .inl (hfound.trans hinner)
  · -- With carriage returns the inner text would not start with a line feed.
    refine .inr ?_
    rw [adaptEnding_eq_recast, hinner] at hfound
    cases hcarriage : hasCarriage old with
    | false => rwa [hcarriage, recast_false] at hfound
    | true =>
      rw [hcarriage] at hfound
      exact absurd (congrArg List.head? hfound) (head?_recast _)

end Merge

/-! ## Refilled texts -/

/-- The owned regions of a fresh text are found in a file with what they hold, in one line ending,
but for a line feed at the start of an inner text. -/
def IsRefilled (ownedNames : List String) (fresh text : List Char) : Prop :=
  ∃ carriage, ∀ name ∈ ownedNames, name ∈ names fresh → name ∈ names text ∧
    (innerOf text name = recast carriage (innerOf fresh name) ∨
      innerOf fresh name = '\n' :: innerOf text name)

/-- A text holds its own regions. -/
theorem isRefilled_self (ownedNames : List String) (fresh : List Char) :
    IsRefilled ownedNames fresh fresh :=
  ⟨false, fun _ _ hname => ⟨hname, .inl rfl⟩⟩

/-- **A merge refills the file.** All that is claimed of a merged file is put together here. -/
theorem isRefilled_of_merge {old fresh : List Char} {ownedNames : List String} {path : String}
    {strategy : Strategy} {m : Merged} (h : merge old fresh ownedNames path strategy = .ok m)
    (hn : ownedNames.Nodup) : IsRefilled ownedNames fresh m.text :=
  ⟨hasCarriage old, fun _ hname _ =>
    ⟨mem_names_of_merged h hn hname, innerOf_of_merge h hn hname⟩⟩

end FormScaffold.Region
