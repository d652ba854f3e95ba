import FormScaffold.Proofs.Region.Document
import FormScaffold.Proofs.Region.Marks
import FormScaffold.Proofs.Region.Merging

/-! # Merging again

What one merge leaves of a file is cut into the same pieces again, so that a later merge sees the
regions that the first one saw.

* **`Piece.inEnding`**, `scan_inEnding` — a document in the line ending of a file has the regions of
  the document;
* `IsFilling` — what the inner text of a document's region looks like there;
* **`pieces_undergo`** — the pieces of a file whose regions were filled are the filled pieces;
* **`merge_merge`** — merging two documents one after the other is merging the second alone;
* `merge_document` — merging a document into another of the same frame gives the second. -/

namespace FormScaffold.Region

open Text

/-! ## Documents in a line ending -/

namespace Piece

/-- A piece with its lines put into an ending. -/
def inEnding (carriage : Bool) : Piece → Piece
  | line l => .line (Text.inEnding carriage l)
  | region name opening inner closing =>
    .region name (Text.inEnding carriage opening) (inner.map (Text.inEnding carriage))
      (Text.inEnding carriage closing)

/-- The lines of a piece in an ending are its lines in this ending. -/
theorem lines_inEnding (carriage : Bool) (p : Piece) :
    (p.inEnding carriage).lines = p.lines.map (Text.inEnding carriage) := by
  cases p <;> simp [inEnding]

/-- A region keeps its name in every ending. -/
theorem name?_inEnding (carriage : Bool) (p : Piece) : (p.inEnding carriage).name? = p.name? := by
  cases p <;> rfl

end Piece

/-- The lines of pieces in an ending are their lines in this ending. -/
theorem flatMap_lines_inEnding (carriage : Bool) (ps : List Piece) :
    (ps.map (Piece.inEnding carriage)).flatMap Piece.lines =
      (ps.flatMap Piece.lines).map (inEnding carriage) := by
  rw [List.flatMap_map, List.map_flatMap]
  exact congrArg (List.flatMap · ps) (funext fun p => p.lines_inEnding carriage)

/-- Regions keep their names in every ending. -/
theorem pieceNames_inEnding (carriage : Bool) (ps : List Piece) :
    pieceNames (ps.map (Piece.inEnding carriage)) = pieceNames ps := by
  rw [pieceNames, List.filterMap_map]
  exact congrArg (List.filterMap · ps) (funext fun p => p.name?_inEnding carriage)

/-- A line of a text without carriage returns marks the same in every ending. -/
theorem ofLine_inEnding {l : List Char} (hline : Text.lines l = [l]) (h : ∀ c ∈ l, c ≠ '\r')
    (carriage : Bool) : Mark.ofLine (inEnding carriage l) = Mark.ofLine l := by
  rw [Mark.ofLine, stripBreak_inEnding hline h, ← Mark.ofLine]

/-- A proper piece stays proper in every ending, since a marker is read the same with a carriage
return behind it. -/
theorem Piece.IsProper.inEnding {p : Piece} (h : p.IsProper)
    (hlines : ∀ l ∈ p.lines, Text.lines l = [l] ∧ ∀ c ∈ l, c ≠ '\r') (carriage : Bool) :
    (p.inEnding carriage).IsProper := by
  have hmark : ∀ l ∈ p.lines, Mark.ofLine (Text.inEnding carriage l) = Mark.ofLine l :=
    fun l hl => ofLine_inEnding (hlines l hl).1 (hlines l hl).2 carriage
  cases p with
  | line l =>
    show isMarkerLine _ = false
    rw [isMarkerLine, hmark l (by simp)]
    exact h
  | region n o i c =>
    obtain ⟨ho, hc, hi⟩ := h
    refine ⟨(hmark o (by simp)).trans ho, (hmark c (by simp)).trans hc, ?_⟩
    intro l hl
    obtain ⟨m, hm, rfl⟩ := List.mem_map.1 hl
    rw [isMarkerLine, hmark m (by simp [hm])]
    exact hi m hm

section Document

variable {bs : List Block} (h : ∀ b ∈ bs, b.IsProper) (hnames : (documentNames bs).Nodup)
include h

/-- A document has no carriage returns. -/
theorem ne_cr_of_mem_documentText : ∀ c ∈ documentText bs, c ≠ '\r' := by
  rintro c hc rfl
  exact absurd (breaks_documentText h _ hc isLineBreak_cr) (by decide)

/-- A document in an ending has the pieces of the document in that ending. -/
theorem lines_inEnding_documentText (carriage : Bool) :
    Text.lines (inEnding carriage (documentText bs)) =
      ((documentPieces bs).map (Piece.inEnding carriage)).flatMap Piece.lines := by
  rw [lines_inEnding (breaks_documentText h), lines_documentText h, flatMap_lines_inEnding]

include hnames

/-- **A document in an ending has no problems, and its regions are its bodies there.** The bodies
are in the ending then. -/
theorem scan_inEnding (carriage : Bool) :
    (scan (inEnding carriage (documentText bs))).problems = [] ∧
      (scan (inEnding carriage (documentText bs))).regions =
        locate 0 ((documentPieces bs).map (Piece.inEnding carriage)) := by
  have hproper : ∀ p ∈ (documentPieces bs).map (Piece.inEnding carriage), p.IsProper := by
    intro p hp
    obtain ⟨q, hq, rfl⟩ := List.mem_map.1 hp
    refine (isProper_of_mem_documentPieces h hq).inEnding (fun l hl => ?_) carriage
    have hmem : l ∈ Text.lines (documentText bs) := by
      rw [lines_documentText h]
      exact List.mem_flatMap.2 ⟨q, hq, hl⟩
    refine ⟨(isLines_lines _).one l hmem, fun c hc => ne_cr_of_mem_documentText h c ?_⟩
    rw [← flatten_lines (documentText bs)]
    exact List.mem_flatten.2 ⟨l, hmem, hc⟩
  have hpieces : pieceNames ((documentPieces bs).map (Piece.inEnding carriage)) =
      documentNames bs := (pieceNames_inEnding carriage _).trans (pieceNames_documentPieces bs)
  obtain ⟨hproblems, hregions, -⟩ := scan_of_lines (lines_inEnding_documentText h carriage) hproper
    (hpieces ▸ hnames)
  exact ⟨hproblems, hregions⟩

/-- **The regions of a document are found in every ending**, by the same names. -/
theorem names_inEnding (carriage : Bool) :
    names (inEnding carriage (documentText bs)) = documentNames bs := by
  rw [names, Scan.names, (scan_inEnding h hnames carriage).2, names_locate, ← pieceNames,
    pieceNames_inEnding, pieceNames_documentPieces]

end Document

/-! ## Inner texts -/

/-- The regions among pieces one behind the other: those of the later ones are moved by the text of
the earlier ones. -/
theorem locate_append (offset : Nat) (ps qs : List Piece) :
    locate offset (ps ++ qs) =
      locate offset ps ++ locate (offset + (ps.flatMap Piece.text).length) qs := by
  induction ps generalizing offset with
  | nil => rfl
  | cons p ps ih =>
    rw [List.cons_append, locate, locate, ih, List.append_assoc, List.flatMap_cons,
      List.length_append, Nat.add_assoc]

/-- The inner text of a region among the pieces of a text. -/
theorem innerOf_of_mem {text : List Char} {ps : List Piece} (htext : ps.flatMap Piece.text = text)
    (hregions : (scan text).regions = locate 0 ps) {n : String} {o c : List Char}
    {i : List (List Char)} (h : Piece.region n o i c ∈ ps) : innerOf text n = i.flatten := by
  obtain ⟨front, back, rfl⟩ := List.append_of_mem h
  rw [locate_append, locate_region, Nat.zero_add] at hregions
  have hfound := (sound_scan text).region?_eq_some.2
    ⟨hregions ▸ List.mem_append_right _ List.mem_cons_self, rfl⟩
  have hsplit : text = front.flatMap Piece.text ++
      (o ++ (i.flatten ++ (c ++ back.flatMap Piece.text))) := by
    rw [← htext, List.flatMap_append, List.flatMap_cons, Piece.text_region]
    simp only [List.append_assoc]
  rw [innerOf, hfound]
  show Region.inner _ text = i.flatten
  rw [hsplit]
  exact inner_eq rfl rfl

/-- A text that fills a region in a line ending: whole lines without markers, the first of them not
a mere line feed. -/
structure IsFilling (carriage : Bool) (text : List Char) : Prop where
  plain : ∀ l ∈ Text.lines text, isMarkerLine l = false
  head : ∀ c ∈ text.head?, c ≠ '\n'
  last : text.getLast? = some '\n'
  carriage : hasCarriage text = carriage

/-- A body fills its region in every ending. -/
theorem IsBody.isFilling {body : List Char} (h : IsBody body) (carriage : Bool) :
    IsFilling carriage (inEnding carriage (closed body)) := by
  obtain ⟨c, hhead, hc⟩ := h.head
  have hne : closed body ≠ [] := by
    intro hnil
    rw [hnil] at hhead
    exact absurd hhead (by simp)
  have hlast : (closed body).getLast? = some '\n' := (isWhole_closed body).resolve_left hne
  have hcr : ∀ d ∈ closed body, d ≠ '\r' := by
    rintro d hd rfl
    exact absurd (h.plain.breaks _ hd isLineBreak_cr) (by decide)
  refine ⟨?_, ?_, getLast?_inEnding hlast carriage,
    hasCarriage_inEnding hcr (List.mem_of_getLast? hlast) carriage⟩
  · intro l hl
    rw [lines_inEnding h.plain.breaks] at hl
    obtain ⟨m, hm, rfl⟩ := List.mem_map.1 hl
    -- A line has the characters of the body, none of which is a carriage return.
    have hchars : ∀ d ∈ m, d ≠ '\r' := by
      intro d hd
      refine hcr d ?_
      rw [← flatten_lines (closed body)]
      exact List.mem_flatten.2 ⟨m, hm, hd⟩
    rw [isMarkerLine, ofLine_inEnding ((isLines_lines _).one m hm) hchars]
    exact h.plain.lines m hm
  · obtain ⟨tail, htail⟩ := List.head?_eq_some_iff.1 hhead
    rw [htail, inEnding_cons hc]
    intro d hd
    rwa [← Option.some.inj hd]

/-- The inner texts of a document in an ending are its bodies there. -/
theorem innerOf_inEnding {bs : List Block} (h : ∀ b ∈ bs, b.IsProper)
    (hnames : (documentNames bs).Nodup) {name : String} {body : List Char}
    (hmem : Block.region name body ∈ bs) (carriage : Bool) :
    innerOf (inEnding carriage (documentText bs)) name = inEnding carriage (closed body) := by
  have hpiece : Piece.region name (beginLine name) (Text.lines (closed body)) (endLine name) ∈
      documentPieces bs := List.mem_flatMap.2 ⟨_, hmem, List.mem_singleton.2 rfl⟩
  have htext : ((documentPieces bs).map (Piece.inEnding carriage)).flatMap Piece.text =
      inEnding carriage (documentText bs) := by
    rw [flatMap_text, ← lines_inEnding_documentText h, flatten_lines]
  rw [innerOf_of_mem htext (scan_inEnding h hnames carriage).2 (List.mem_map_of_mem hpiece),
    ← inEnding_flatten, flatten_lines]

/-- A name of a document is the name of one of its bodies. -/
theorem exists_of_mem_documentNames {bs : List Block} {name : String}
    (h : name ∈ documentNames bs) : ∃ body, Block.region name body ∈ bs := by
  obtain ⟨b, hb, hname⟩ := List.mem_filterMap.1 h
  cases b with
  | plain t => exact absurd hname (by simp [Block.name?])
  | region n body =>
    obtain rfl : n = name := Option.some.inj hname
    exact ⟨body, hb⟩

/-- **What a document fills a region with is a filling.** It is closed with a line feed, has no
markers, and does not start with a line feed. -/
theorem isFilling_innerOf {bs : List Block} (h : ∀ b ∈ bs, b.IsProper)
    (hnames : (documentNames bs).Nodup) {name : String} (hname : name ∈ documentNames bs)
    (carriage : Bool) :
    IsFilling carriage (innerOf (inEnding carriage (documentText bs)) name) := by
  obtain ⟨body, hmem⟩ := exists_of_mem_documentNames hname
  rw [innerOf_inEnding h hnames hmem]
  exact (h _ hmem).2.isFilling carriage

/-- A document is put into the line ending of the file. -/
theorem adaptEnding_documentText {bs : List Block} (h : ∀ b ∈ bs, b.IsProper) (old : List Char) :
    adaptEnding old (documentText bs) = inEnding (hasCarriage old) (documentText bs) := by
  rw [adaptEnding, dropCarriage_eq_self (ne_cr_of_mem_documentText h), inEnding]

/-! ## Filled pieces -/

/-- Regions are kept or filled with what fits them. -/
def Fills (isFit : List Char → Prop) (fate : String → Fate) : Prop :=
  ∀ name, fate name = .kept ∨ ∃ text, fate name = .filled text ∧ isFit text

section Fills

variable {isFit : List Char → Prop}
  (hplain : ∀ text, isFit text → ∀ l ∈ Text.lines text, isMarkerLine l = false)
  {fate : String → Fate} (h : Fills isFit fate)

include h in
/-- A region that is kept or filled keeps its name and its marker lines. -/
theorem Fills.region (n : String) (o : List Char) (i : List (List Char)) (c : List Char) :
    ∃ i', (∀ ps, undergo fate (.region n o i c :: ps) = .region n o i' c :: undergo fate ps) ∧
      (i' = i ∨ ∃ text, isFit text ∧ i' = Text.lines text) := by
  rcases h n with hf | ⟨text, hf, ht⟩
  · exact ⟨i, fun ps => undergo_kept o i c ps hf, .inl rfl⟩
  · exact ⟨Text.lines text, fun ps => undergo_filled o i c ps hf, .inr ⟨text, ht, rfl⟩⟩

include h in
/-- Filling regions leaves their names. -/
theorem pieceNames_undergo (ps : List Piece) :
    pieceNames (undergo fate ps) = pieceNames ps := by
  induction ps with
  | nil => rfl
  | cons p ps ih =>
    cases p with
    | line l => rw [undergo_line, pieceNames_line, pieceNames_line, ih]
    | region n o i c =>
      obtain ⟨i', hundergo, -⟩ := h.region n o i c
      rw [hundergo, pieceNames_region, pieceNames_region, ih]

include hplain

/-- The lines of an inner text, whether it was filled or not, are plain. -/
theorem plain_of_filled {i i' : List (List Char)}
    (hfilled : i' = i ∨ ∃ text, isFit text ∧ i' = Text.lines text)
    (hi : ∀ l ∈ i, isMarkerLine l = false) : ∀ l ∈ i', isMarkerLine l = false := by
  rcases hfilled with rfl | ⟨text, ht, rfl⟩
  · exact hi
  · exact hplain text ht

include h

/-- Regions that are filled stay between their markers. -/
theorem isProper_undergo {ps : List Piece} (hps : ∀ p ∈ ps, p.IsProper) :
    ∀ p ∈ undergo fate ps, p.IsProper := by
  induction ps with
  | nil => exact hps
  | cons p ps ih =>
    obtain ⟨hp, hrest⟩ := List.forall_mem_cons.1 hps
    cases p with
    | line l =>
      rw [undergo_line]
      exact List.forall_mem_cons.2 ⟨hp, ih hrest⟩
    | region n o i c =>
      obtain ⟨ho, hc, hi⟩ := hp
      obtain ⟨i', hundergo, hfilled⟩ := h.region n o i c
      rw [hundergo]
      exact List.forall_mem_cons.2 ⟨⟨ho, hc, plain_of_filled hplain hfilled hi⟩, ih hrest⟩

/-- Filling regions adds no marker line and takes none away. -/
theorem filter_lines_undergo {ps : List Piece} (hps : ∀ p ∈ ps, p.IsMarked) :
    ((undergo fate ps).flatMap Piece.lines).filter isMarkerLine =
      (ps.flatMap Piece.lines).filter isMarkerLine := by
  induction ps with
  | nil => rfl
  | cons p ps ih =>
    have hrest := ih fun q hq => hps q (List.mem_cons_of_mem p hq)
    cases p with
    | line l =>
      rw [undergo_line, List.flatMap_cons, List.flatMap_cons, List.filter_append,
        List.filter_append, hrest]
    | region n o i c =>
      obtain ⟨-, -, hi⟩ := hps _ List.mem_cons_self
      obtain ⟨i', hundergo, hfilled⟩ := h.region n o i c
      -- Neither the old nor the new inner lines are marker lines.
      have hnone : ∀ ls : List (List Char), (∀ l ∈ ls, isMarkerLine l = false) →
          ls.filter isMarkerLine = [] := by
        intro ls hls
        refine List.filter_eq_nil_iff.2 fun l hl => ?_
        rw [hls l hl]
        exact Bool.false_ne_true
      rw [hundergo, List.flatMap_cons, List.flatMap_cons, List.filter_append,
        List.filter_append, hrest, Piece.lines_region, Piece.lines_region, List.filter_cons,
        List.filter_cons, List.filter_append, List.filter_append, hnone i hi,
        hnone i' (plain_of_filled hplain hfilled hi)]

/-- Filling regions leaves what the lines mark. -/
theorem marks_undergo {ps : List Piece} (hps : ∀ p ∈ ps, p.IsMarked) :
    marks ((undergo fate ps).flatMap Piece.lines) = marks (ps.flatMap Piece.lines) :=
  congrArg (List.map Mark.ofLine) (filter_lines_undergo hplain h hps)

end Fills

section Filled

variable {carriage : Bool} {fate : String → Fate} (h : Fills (IsFilling carriage) fate)
include h

/-- **The pieces of lines with filled regions are the filled pieces.** What is filled in holds no
markers, so that each region goes on to its own end marker. -/
theorem piecesOf_undergo (isClean : String → Bool) (ls : List (List Char)) :
    piecesOf isClean ((undergo fate (piecesOf isClean ls)).flatMap Piece.lines) =
      undergo fate (piecesOf isClean ls) := by
  induction ls using piecesOf.induct isClean with
  | case1 => rw [piecesOf_nil]; exact piecesOf_nil isClean
  | case2 l ls p rest hp ih =>
    obtain ⟨n, i, c, rfl, -, hi, ho, hc, hclean⟩ := takeRegion?_eq_some.1 hp
    obtain ⟨i', hundergo, hfilled⟩ := h.region n l i c
    have htake : takeRegion? isClean l (i' ++ c ::
        (undergo fate (piecesOf isClean rest)).flatMap Piece.lines) =
          some (.region n l i' c, (undergo fate (piecesOf isClean rest)).flatMap Piece.lines) :=
      takeRegion?_eq_some.2 ⟨n, i', c, rfl, rfl,
        plain_of_filled (fun _ ht => ht.plain) hfilled hi, ho, hc, hclean⟩
    rw [piecesOf_region hp, hundergo, List.flatMap_cons, Piece.lines_region,
      List.cons_append, List.append_assoc, List.singleton_append, piecesOf_region htake, ih]
  | case3 l ls hl ih =>
    -- The next marker line is the same, so that no region begins here now.
    have hmarked : ∀ p ∈ piecesOf isClean ls, p.IsMarked := fun p hp => isMarked_of_mem_piecesOf hp
    have hnext : ((undergo fate (piecesOf isClean ls)).flatMap Piece.lines).find? isMarkerLine =
        ls.find? isMarkerLine := by
      rw [← List.head?_filter, ← List.head?_filter,
        filter_lines_undergo (fun _ ht => ht.plain) h hmarked, flatMap_lines_piecesOf]
    have hnone : takeRegion? isClean l
        ((undergo fate (piecesOf isClean ls)).flatMap Piece.lines) = none := by
      rw [takeRegion?_eq_none_iff, hnext]
      exact takeRegion?_eq_none_iff.1 hl
    rw [piecesOf_line hl, undergo_line, List.flatMap_cons, Piece.lines_line,
      List.singleton_append, piecesOf_line hnone, ih]

/-! ### Lines of filled pieces -/

/-- Filling and keeping regions leaves the first line. -/
theorem head?_undergo (ps : List Piece) :
    ((undergo fate ps).flatMap Piece.lines).head? = (ps.flatMap Piece.lines).head? := by
  cases ps with
  | nil => rfl
  | cons p ps =>
    cases p with
    | line l => rw [undergo_line, List.flatMap_cons, List.flatMap_cons]; rfl
    | region n o i c =>
      obtain ⟨i', hundergo, -⟩ := h.region n o i c
      rw [hundergo, List.flatMap_cons, List.flatMap_cons]
      rfl

omit h in
/-- The lines of a filling fit between two marker lines that are there. -/
theorem isLines_filled {o c : List Char} {i i' : List (List Char)}
    (hlines : IsLines (o :: (i ++ [c])))
    (hfilled : i' = i ∨ ∃ text, IsFilling carriage text ∧ i' = Text.lines text) :
    IsLines (o :: (i' ++ [c])) := by
  rcases hfilled with rfl | ⟨text, ht, rfl⟩
  · exact hlines
  · obtain ⟨ho, hnext, hrest⟩ := isLines_cons.1 hlines
    obtain ⟨-, hc, -⟩ := isLines_append.1 hrest
    have hbreak : EndsInBreak o := by
      cases i with
      | nil => exact (hnext c rfl).1
      | cons l ls => exact (hnext l rfl).1
    have hne : text ≠ [] := by
      rintro rfl
      exact absurd ht.last (by simp)
    refine isLines_cons.2 ⟨ho, ?_, isLines_append.2 ⟨isLines_lines text, hc, ?_⟩⟩
    · intro m hm
      rw [List.head?_append_of_ne_nil _ (lines_ne_nil hne)] at hm
      obtain ⟨ms, hms⟩ := List.head?_eq_some_iff.1 hm
      -- The first line starts as the text does, which is not with a line feed.
      have hhead : text.head? = m.head? := by
        rw [← flatten_lines text, hms,
          head?_flatten (ne_nil_of_mem_lines (List.mem_of_mem_head? hm))]
      refine ⟨hbreak, fun hfuse => ht.head '\n' ?_ rfl⟩
      rw [hhead]
      exact hfuse.2
    · intro l hl m _
      obtain ⟨front, hfront⟩ := List.getLast?_eq_some_iff.1 hl
      -- The last line ends as the text does, with a line feed.
      have hlast : l.getLast? = some '\n' := by
        have htext := ht.last
        rwa [← flatten_lines text, hfront, List.flatten_append, List.flatten_singleton,
          List.getLast?_append_of_ne_nil _ (ne_nil_of_mem_lines (List.mem_of_getLast? hl))] at htext
      exact ⟨endsInBreak_of_lf hlast, not_fuses_of_lf hlast m⟩

/-- **Filled pieces are cut into lines where they were.** No break of what is filled in meets a
break of the lines around it. -/
theorem isLines_undergo {ps : List Piece} (hlines : IsLines (ps.flatMap Piece.lines)) :
    IsLines ((undergo fate ps).flatMap Piece.lines) := by
  induction ps with
  | nil => exact isLines_nil
  | cons p ps ih =>
    rw [List.flatMap_cons] at hlines
    obtain ⟨hfirst, hrest, hnext⟩ := isLines_append.1 hlines
    have hhead := head?_undergo h ps
    cases p with
    | line l =>
      rw [undergo_line, List.flatMap_cons]
      exact isLines_append.2 ⟨hfirst, ih hrest, hhead ▸ hnext⟩
    | region n o i c =>
      obtain ⟨i', hundergo, hfilled⟩ := h.region n o i c
      have hlast : (Piece.region n o i' c).lines.getLast? =
          (Piece.region n o i c).lines.getLast? := by
        rw [Piece.lines_region, Piece.lines_region, ← List.cons_append, ← List.cons_append,
          List.getLast?_concat, List.getLast?_concat]
      rw [hundergo, List.flatMap_cons]
      exact isLines_append.2 ⟨isLines_filled hfirst hfilled, ih hrest, by rwa [hlast, hhead]⟩

/-- **Filled pieces have the line ending that the pieces have.** What is filled in has the ending of
the text it is put into. -/
theorem any_hasCarriage_undergo {ps : List Piece}
    (hps : (ps.flatMap Piece.lines).any hasCarriage = carriage) :
    ((undergo fate ps).flatMap Piece.lines).any hasCarriage = carriage := by
  -- A filling has the ending of the file, so one direction of each case of the ending is kept.
  have hkept : (carriage = true → (ps.flatMap Piece.lines).any hasCarriage = true →
        ((undergo fate ps).flatMap Piece.lines).any hasCarriage = true) ∧
      (carriage = false → (ps.flatMap Piece.lines).any hasCarriage = false →
        ((undergo fate ps).flatMap Piece.lines).any hasCarriage = false) := by
    clear hps
    induction ps with
    | nil => exact ⟨fun _ hany => hany, fun _ hany => hany⟩
    | cons p ps ih =>
      cases p with
      | line l =>
        rw [undergo_line, List.flatMap_cons, List.flatMap_cons, List.any_append, List.any_append]
        grind
      | region n o i c =>
        obtain ⟨i', hundergo, hfilled⟩ := h.region n o i c
        have hany : i' = i ∨ i'.any hasCarriage = carriage := by
          refine hfilled.imp_right ?_
          rintro ⟨text, ht, rfl⟩
          rw [← hasCarriage_flatten (isLines_lines text), flatten_lines, ht.carriage]
        rw [hundergo, List.flatMap_cons, List.flatMap_cons, List.any_append,
          List.any_append, Piece.lines_region, Piece.lines_region, List.any_cons, List.any_cons,
          List.any_append, List.any_append]
        grind
  cases carriage with
  | true => exact hkept.1 rfl hps
  | false => exact hkept.2 rfl hps

section Text

variable (text : List Char)

/-- A text whose regions were filled is cut into lines where its pieces are. -/
theorem isLines_undergo_pieces : IsLines ((undergo fate (pieces text)).flatMap Piece.lines) := by
  refine isLines_undergo h ?_
  rw [pieces, flatMap_lines_piecesOf]
  exact isLines_lines text

/-- **Filling regions adds no problem and takes none away.** The marks stay as they are, and
problems depend on nothing else. -/
theorem problems_undergo :
    (scan ((undergo fate (pieces text)).flatMap Piece.text)).problems = (scan text).problems := by
  have hmarked : ∀ p ∈ pieces text, p.IsMarked := fun p hp => isMarked_of_mem_piecesOf hp
  refine (scan_congr ?_).1
  rw [flatMap_text, lines_flatten (isLines_undergo_pieces h text),
    marks_undergo (fun _ ht => ht.plain) h hmarked, pieces, flatMap_lines_piecesOf]

/-- **The pieces of a text whose regions were filled are the filled pieces.** So the second merge
finds the regions where the first one has left them. -/
theorem pieces_undergo :
    pieces ((undergo fate (pieces text)).flatMap Piece.text) = undergo fate (pieces text) := by
  have hclean : isCleanIn ((undergo fate (pieces text)).flatMap Piece.text) = isCleanIn text := by
    funext name
    rw [isCleanIn, isCleanIn, Scan.problem?, Scan.problem?, problems_undergo h text]
  rw [pieces, hclean, flatMap_text, lines_flatten (isLines_undergo_pieces h text)]
  exact piecesOf_undergo h _ _

end Text

/-- **A text whose regions were filled has the line ending that it had.** The ending is read from
the whole text, filled regions included. -/
theorem hasCarriage_undergo {text : List Char} (hcarriage : hasCarriage text = carriage) :
    hasCarriage ((undergo fate (pieces text)).flatMap Piece.text) = carriage := by
  have hflat : (pieces text).flatMap Piece.lines = Text.lines text :=
    flatMap_lines_piecesOf _ _
  rw [flatMap_text, hasCarriage_flatten (isLines_undergo_pieces h text)]
  refine any_hasCarriage_undergo h ?_
  rw [hflat, ← hasCarriage_flatten (isLines_lines text), flatten_lines, hcarriage]

/-- A text whose regions were filled has the regions that it had. -/
theorem names_undergo (text : List Char) :
    names ((undergo fate (pieces text)).flatMap Piece.text) = names text := by
  rw [names_eq_pieceNames, names_eq_pieceNames, pieces_undergo h, pieceNames_undergo h]

end Filled

/-- What is filled again is as if it had been filled once. -/
theorem undergo_undergo {fate fate' : String → Fate}
    (h : ∀ name, fate name = .kept ∨
      ∃ text text', fate name = .filled text ∧ fate' name = .filled text') (ps : List Piece) :
    undergo fate' (undergo fate ps) = undergo fate' ps := by
  induction ps with
  | nil => rfl
  | cons p ps ih =>
    cases p with
    | line l => rw [undergo_line, undergo_line, undergo_line, ih]
    | region n o i c =>
      rcases h n with hf | ⟨text, text', hf, hf'⟩
      · rw [undergo_kept o i c ps hf, undergo_cons, undergo_cons, ih]
      · rw [undergo_filled o i c ps hf, undergo_filled _ _ _ _ hf', undergo_filled _ _ _ _ hf', ih]

/-! ## Merging documents -/

/-- Owned regions that are in both texts are found. -/
theorem exists_pairs {old fresh : List Char} {ownedNames : List String}
    (h : ∀ name ∈ ownedNames, name ∈ names old ∧ name ∈ names fresh) :
    ∃ pairs, ownedNames.mapM (owned (scan old) (scan fresh)) = .ok pairs := by
  have hfound : ∀ text name, name ∈ names text → ∃ r, (scan text).region? name = some r := by
    intro text name hname
    obtain ⟨r, hr, rfl⟩ := List.mem_map.1 hname
    exact ⟨r, (sound_scan text).region?_eq_some.2 ⟨hr, rfl⟩⟩
  refine exists_mapM_eq_ok fun name hname => ?_
  obtain ⟨hold, hfresh⟩ := h name hname
  obtain ⟨r, hr⟩ := hfound old name hold
  obtain ⟨r', hr'⟩ := hfound fresh name hfresh
  exact ⟨(r, r'), owned_eq_ok.2 ⟨problem?_of_mem_names hold, hr, hr'⟩⟩

/-- Merging that leaves orphans alone succeeds when the owned regions are there. -/
theorem exists_merge {old fresh : List Char} {ownedNames : List String} (path : String)
    (h : ∀ name ∈ ownedNames, name ∈ names old ∧ name ∈ names (adaptEnding old fresh)) :
    ∃ m, merge old fresh ownedNames path .respectManual = .ok m := by
  obtain ⟨pairs, hpairs⟩ := exists_pairs h
  unfold merge
  simp only
  rw [hpairs]
  exact ⟨_, rfl⟩

section Merged

variable {bs : List Block} (h : ∀ b ∈ bs, b.IsProper) (hnames : (documentNames bs).Nodup)
include h hnames

/-- Merging a document fills the regions that it owns. -/
theorem fills_fateOf (old : List Char) :
    Fills (IsFilling (hasCarriage old)) (fateOf .respectManual (documentNames bs)
      (adaptEnding old (documentText bs))) := by
  intro name
  by_cases hname : name ∈ documentNames bs
  · refine .inr ⟨_, fateOf_owned hname _ _, ?_⟩
    rw [adaptEnding_documentText h]
    exact isFilling_innerOf h hnames hname _
  · exact .inl (if_neg hname)

/-- **A document is merged into a text that has its regions**, and into no other. A region that is
owned and not found, or found with a problem, is a conflict. -/
theorem exists_merge_document_iff (old : List Char) (path : String) :
    (∃ m, merge old (documentText bs) (documentNames bs) path .respectManual = .ok m) ↔
      ∀ name ∈ documentNames bs, name ∈ names old := by
  constructor
  · rintro ⟨m, hm⟩ name hname
    exact (mem_names_of_merge hm name hname).1
  · intro hold
    refine exists_merge path fun name hname => ⟨hold name hname, ?_⟩
    rwa [adaptEnding_documentText h, names_inEnding h hnames]

/-- **Merging two documents one after the other is merging the second alone**, when they have the
same regions. The second document fills every region that the first has filled. -/
theorem merge_merge {bs' : List Block} (h' : ∀ b ∈ bs', b.IsProper)
    (hsame : documentNames bs = documentNames bs') {old : List Char} {path : String} {m : Merged}
    (hm : merge old (documentText bs) (documentNames bs) path .respectManual = .ok m)
    (path' : String) :
    ∃ m₁ m₂, merge old (documentText bs') (documentNames bs') path' .respectManual = .ok m₁ ∧
      merge m.text (documentText bs') (documentNames bs') path' .respectManual = .ok m₂ ∧
      m₂.text = m₁.text := by
  have hnames' : (documentNames bs').Nodup := hsame ▸ hnames
  have hold := mem_names_of_merge hm
  have htext := text_merged hm hnames
  have hfills := fills_fateOf h hnames old
  have hregions : names m.text = names old := by
    rw [htext]
    exact names_undergo hfills old
  have hending : hasCarriage m.text = hasCarriage old := by
    rw [htext]
    exact hasCarriage_undergo hfills rfl
  obtain ⟨m₁, hm₁⟩ := (exists_merge_document_iff h' hnames' old path').2 fun name hname =>
    (hold name (hsame ▸ hname)).1
  obtain ⟨m₂, hm₂⟩ := (exists_merge_document_iff h' hnames' m.text path').2 fun name hname =>
    hregions ▸ (hold name (hsame ▸ hname)).1
  refine ⟨m₁, m₂, hm₁, hm₂, ?_⟩
  -- Both texts are what the pieces of the old one undergo: what is filled twice is filled last.
  rw [text_merged hm₁ hnames', text_merged hm₂ hnames', adaptEnding_documentText h',
    adaptEnding_documentText h', hending]
  have hpieces : pieces m.text = undergo (fateOf .respectManual (documentNames bs)
      (adaptEnding old (documentText bs))) (pieces old) := by
    rw [htext]
    exact pieces_undergo hfills old
  rw [hpieces, undergo_undergo]
  intro name
  by_cases hname : name ∈ documentNames bs
  · exact .inr ⟨_, _, fateOf_owned hname _ _, fateOf_owned (hsame ▸ hname) _ _⟩
  · exact .inl (if_neg hname)

end Merged

/-! ## Documents of one frame -/

/-- A block without its body. -/
def Block.frame : Block → Block
  | plain t => .plain t
  | region name _ => .region name []

/-- The names of a document depend on its frames alone, and not on what stands in its bodies. -/
theorem documentNames_congr {bs bs' : List Block} (h : bs.map Block.frame = bs'.map Block.frame) :
    documentNames bs = documentNames bs' := by
  have hframe : ∀ cs : List Block, documentNames (cs.map Block.frame) = documentNames cs := by
    intro cs
    rw [documentNames, List.filterMap_map]
    exact congrArg (List.filterMap · cs) (funext fun b => by cases b <;> rfl)
  rw [← hframe bs, h, hframe]

/-- The regions of a document are filled with the bodies of another. -/
theorem undergo_documentPieces {fate : String → Fate} {bs bs' : List Block}
    (h : bs.map Block.frame = bs'.map Block.frame)
    (hfate : ∀ name body, Block.region name body ∈ bs' → fate name = .filled (closed body)) :
    undergo fate (documentPieces bs) = documentPieces bs' := by
  induction bs generalizing bs' with
  | nil =>
    obtain rfl : bs' = [] := by simpa using h.symm
    rfl
  | cons b bs ih =>
    cases bs' with
    | nil => simp at h
    | cons b' bs' =>
      obtain ⟨hframe, hrest⟩ := List.cons.inj h
      have htail := ih hrest fun name body hb => hfate name body (List.mem_cons_of_mem _ hb)
      have hcons : ∀ (c : Block) (cs : List Block),
          documentPieces (c :: cs) = c.pieces ++ documentPieces cs := fun c cs => List.flatMap_cons
      rw [hcons, hcons, undergo, List.filterMap_append, ← undergo, ← undergo, htail]
      -- Blocks with one frame are both plain and the same, or regions with one name.
      congr 1
      cases b with
      | plain t =>
        cases b' with
        | region name' body' => simp [Block.frame] at hframe
        | plain t' =>
          obtain rfl : t = t' := by simpa [Block.frame] using hframe
          rw [Block.pieces, undergo, List.filterMap_map]
          exact congrFun (List.filterMap_eq_map' (f := Piece.line)) (Text.lines t)
      | region name body =>
        cases b' with
        | plain t' => simp [Block.frame] at hframe
        | region name' body' =>
          obtain rfl : name = name' := by simpa [Block.frame] using hframe
          have hfilled := hfate name body' List.mem_cons_self
          exact undergo_filled _ _ _ [] hfilled

/-- **Merging a document into another of the same frame gives the document.** Outside of the regions
the two are the same text. -/
theorem merge_document {bs bs' : List Block} (h : ∀ b ∈ bs, b.IsProper)
    (h' : ∀ b ∈ bs', b.IsProper) (hnames : (documentNames bs).Nodup)
    (hframe : bs.map Block.frame = bs'.map Block.frame) (path : String) :
    ∃ m, merge (documentText bs) (documentText bs') (documentNames bs') path .respectManual =
      .ok m ∧ m.text = documentText bs' := by
  have hsame := documentNames_congr hframe
  have hnames' : (documentNames bs').Nodup := hsame ▸ hnames
  have hending : hasCarriage (documentText bs) = false :=
    hasCarriage_eq_false (ne_cr_of_mem_documentText h)
  obtain ⟨m, hm⟩ := (exists_merge_document_iff h' hnames' (documentText bs) path).2 (by
    intro name hname
    have hregions : names (documentText bs) = documentNames bs := (scan_document h hnames).2.2
    rwa [hregions, hsame])
  refine ⟨m, hm, ?_⟩
  rw [text_merged hm hnames', pieces_document h hnames, undergo_documentPieces hframe, flatMap_text,
    ← lines_documentText h', flatten_lines]
  intro name body hmem
  have hname : name ∈ documentNames bs' := List.mem_filterMap.2 ⟨_, hmem, rfl⟩
  rw [fateOf_owned hname, adaptEnding_documentText h', hending, innerOf_inEnding h' hnames' hmem]
  rfl

end FormScaffold.Region
