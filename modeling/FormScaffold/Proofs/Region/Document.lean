import FormScaffold.Proofs.Region.PlainText
import FormScaffold.Proofs.Region.Scanning

/-! # Documents

A generated file is made of plain text and of bodies between their markers. Scanning it finds just
these regions.

* **`IsTagged tag name l`** — what a marker line is: the tag and a name, with blanks around them and
  a line feed, a carriage return, or both at the end;
* **`ofLine_eq_begins_iff`**, **`ofLine_eq_ends_iff`** — marker lines are read as what they are;
* **`Block`**, with its text and its pieces;
* `Block.IsProper` — plain whole lines, or a body that is plain itself under a proper name;
* **`scan_document`** — a document of proper blocks with names of their own has no problems, and
  its regions are its bodies in their order;
* `pieces_document` — its pieces are those of its blocks;
* `scan_prepend` — whole lines in front of a document leave it as it is;
* `breaks_documentText` — it breaks its lines with line feeds alone. -/

namespace FormScaffold.Region

open Text

/-! ## Marker lines -/

/-- A name that stands on a marker line as it is. -/
def IsTagName (name : String) : Prop := name ≠ "" ∧ ∀ c ∈ name.toList, isBlank c = false

instance (name : String) : Decidable (IsTagName name) :=
  decidable_of_iff (name ≠ "" ∧ (name.toList.all fun c => !isBlank c) = true) (by simp [IsTagName])

/-- **The line consists of the tag and the name**, with blanks around them and perhaps a break. -/
def IsTagged (tag : List Char) (name : String) (l : List Char) : Prop :=
  ∃ indent blanks, ∃ break' ∈ plainBreaks,
    l = indent ++ (tag ++ (name.toList ++ (blanks ++ break'))) ∧
      (∀ c ∈ indent, isIndent c = true) ∧ IsTagName name ∧ ∀ c ∈ blanks, isIndent c = true

/-- The line is a marker of the name. -/
def IsMarkerOf (name : String) (l : List Char) : Prop :=
  IsTagged beginTag name l ∨ IsTagged endTag name l

/-- A tag, a name and a line feed make up a marker line. -/
theorem isTagged_lf {name : String} (h : IsTagName name) (tag : List Char) :
    IsTagged tag name (tag ++ name.toList ++ ['\n']) :=
  ⟨[], [], ['\n'], by decide, by simp, by simp, h, by simp⟩

/-! ### How they are read -/

/-- A name that may stand in a tag is read as one name. -/
theorem IsTagName.isNamePart {name : String} (h : IsTagName name) :
    ∀ c ∈ name.toList, isNamePart c = true := by
  intro c hc
  unfold Region.isNamePart
  rw [h.2 c hc]
  rfl

/-- A text that ends in no break keeps its characters when a break behind it goes. -/
theorem stripBreak_of_mem_plainBreaks {cs : List Char}
    (h : ∀ c ∈ cs.getLast?, c ≠ '\r' ∧ c ≠ '\n') {break' : List Char}
    (hbreak : break' ∈ plainBreaks) : stripBreak (cs ++ break') = cs := by
  have hreverse : ∀ c rest, cs.reverse = c :: rest → c ≠ '\r' ∧ c ≠ '\n' := by
    intro c rest hcs
    refine h c ?_
    rw [List.getLast?_eq_head?_reverse, hcs]
    rfl
  simp only [plainBreaks, List.mem_cons, List.not_mem_nil, or_false] at hbreak
  rcases hbreak with rfl | rfl | rfl | rfl
  · rw [List.append_nil]
    unfold stripBreak
    split
    · exact absurd rfl (hreverse _ _ ‹_›).2
    · exact absurd rfl (hreverse _ _ ‹_›).2
    · exact absurd rfl (hreverse _ _ ‹_›).1
    · rfl
  · exact stripBreak_lf fun c hc => (h c hc).1
  · simp [stripBreak]
  · simp [stripBreak]

/-- What is read of a line with a name after a tag. -/
theorem nameAfter_eq_some_iff {c : Char} (hc : isIndent c = false) (tag : List Char)
    {line : List Char} {name : String} :
    nameAfter (c :: tag) line = some name ↔
      ∃ indent blanks, line = indent ++ (c :: tag ++ (name.toList ++ blanks)) ∧
        (∀ d ∈ indent, isIndent d = true) ∧ IsTagName name ∧ ∀ d ∈ blanks, isIndent d = true := by
  constructor
  · intro h
    obtain ⟨indent, word, blanks, rfl, hindent, hne, hword, hblanks, rfl⟩ := nameAfter_eq_some h
    refine ⟨indent, blanks, by simp, hindent, ⟨?_, ?_⟩, hblanks⟩
    · rintro hnil
      exact hne (by simpa using congrArg String.toList hnil)
    · simpa using hword
  · rintro ⟨indent, blanks, rfl, hindent, hname, hblanks⟩
    have hdrop : (indent ++ (c :: tag ++ (name.toList ++ blanks))).dropWhile isIndent =
        c :: tag ++ (name.toList ++ blanks) := by
      rw [List.dropWhile_append_of_pos hindent, List.cons_append, List.dropWhile_cons, hc]
      rfl
    have hprefix : (c :: tag).isPrefixOf (c :: tag ++ (name.toList ++ blanks)) = true :=
      List.isPrefixOf_iff_prefix.2 (List.prefix_append _ _)
    -- The blanks end the name.
    have hspan : (name.toList ++ blanks).span isNamePart = (name.toList, blanks) := by
      refine span_append_of_forall hname.isNamePart fun d hd => ?_
      rw [isNamePart, isBlank_of_isIndent (hblanks d (List.mem_of_mem_head? hd))]
      rfl
    have hne : name.toList.isEmpty = false := by
      rw [List.isEmpty_eq_false_iff]
      intro hnil
      exact hname.1 (String.toList_inj.1 (hnil.trans rfl))
    have hall : blanks.all isIndent = true := List.all_eq_true.2 hblanks
    unfold nameAfter
    simp only [hdrop, hprefix, if_true, List.drop_left, hspan, hne, hall, Bool.not_true,
      Bool.or_self, Bool.false_eq_true, if_false, String.ofList_toList]

/-- A line is tagged when its text without the break is. -/
theorem nameAfter_stripBreak_iff {c : Char} (hc : isIndent c = false) (tag : List Char)
    {l : List Char} {name : String} :
    nameAfter (c :: tag) (stripBreak l) = some name ↔ IsTagged (c :: tag) name l := by
  rw [nameAfter_eq_some_iff hc]
  constructor
  · rintro ⟨indent, blanks, hline, hindent, hname, hblanks⟩
    obtain ⟨break', hbreak, hl⟩ := stripBreak_append l
    refine ⟨indent, blanks, break', hbreak, ?_, hindent, hname, hblanks⟩
    rw [← hl, hline]
    simp
  · rintro ⟨indent, blanks, break', hbreak, rfl, hindent, hname, hblanks⟩
    refine ⟨indent, blanks, ?_, hindent, hname, hblanks⟩
    -- The text ends in a blank or in a character of the name.
    have hlast : ∀ d ∈ (indent ++ (c :: tag ++ (name.toList ++ blanks))).getLast?,
        d ≠ '\r' ∧ d ≠ '\n' := by
      intro d hd
      have hne : name.toList ≠ [] := fun hnil =>
        hname.1 (String.toList_inj.1 (hnil.trans rfl))
      rw [List.getLast?_append_of_ne_nil _ (by simp), List.getLast?_append_of_ne_nil _
        (List.append_ne_nil_of_left_ne_nil hne _)] at hd
      rcases List.mem_append.1 (List.mem_of_getLast? hd) with hd | hd
      · have hblank := hname.2 d hd
        constructor <;> (rintro rfl; exact absurd hblank (by decide))
      · have hblank := hblanks d hd
        constructor <;> (rintro rfl; exact absurd hblank (by decide))
    have hassoc : indent ++ (c :: tag ++ (name.toList ++ (blanks ++ break'))) =
        indent ++ (c :: tag ++ (name.toList ++ blanks)) ++ break' := by simp
    rw [hassoc, stripBreak_of_mem_plainBreaks hlast hbreak]

/-- **A line begins a region when it has the tag for that.** The tag, blanks and the name are read
by the pattern of the scanner, which allows for blanks around them. -/
theorem ofLine_eq_begins_iff {l : List Char} {name : String} :
    Mark.ofLine l = .begins name ↔ IsTagged beginTag name l := by
  have htagged : nameAfter beginTag (stripBreak l) = some name ↔ IsTagged beginTag name l :=
    nameAfter_stripBreak_iff (by decide) _
  rw [← htagged, Mark.ofLine]
  cases nameAfter beginTag (stripBreak l) with
  | some m => simp
  | none => cases nameAfter endTag (stripBreak l) <;> simp

/-- **A line ends a region when it has the tag for that**, which is never the other one: the two
differ in their arrows already. -/
theorem ofLine_eq_ends_iff {l : List Char} {name : String} :
    Mark.ofLine l = .ends name ↔ IsTagged endTag name l := by
  have htagged : nameAfter endTag (stripBreak l) = some name ↔ IsTagged endTag name l :=
    nameAfter_stripBreak_iff (by decide) _
  rw [← htagged, Mark.ofLine]
  have hother : nameAfter endTag (stripBreak l) = some name →
      nameAfter beginTag (stripBreak l) = none := by
    intro h
    obtain ⟨indent, word, blanks, hline, hindent, -⟩ := nameAfter_eq_some h
    have hdrop : (stripBreak l).dropWhile isIndent = endTag ++ (word ++ blanks) := by
      rw [hline, List.dropWhile_append_of_pos hindent]
      rfl
    rw [nameAfter, hdrop]
    rfl
  cases hbegin : nameAfter beginTag (stripBreak l) with
  | some m =>
    refine ⟨fun h => absurd h (by simp), fun h => ?_⟩
    rw [hother h] at hbegin
    exact absurd hbegin (by simp)
  | none => cases nameAfter endTag (stripBreak l) <;> simp

/-- A line that is a marker of no name is plain. -/
theorem isMarkerLine_eq_false_iff {l : List Char} :
    isMarkerLine l = false ↔ ∀ name, ¬IsMarkerOf name l := by
  simp only [isMarkerLine_eq_false, IsMarkerOf, ← ofLine_eq_begins_iff, ← ofLine_eq_ends_iff]
  cases Mark.ofLine l <;> simp

/-! ## Proper pieces -/

/-- A line that is no marker, or a region between its markers. -/
def Piece.IsProper : Piece → Prop
  | .line l => isMarkerLine l = false
  | .region name opening inner closing => (Piece.region name opening inner closing).IsMarked

/-- The names of the regions among pieces. -/
def pieceNames (ps : List Piece) : List String := ps.filterMap Piece.name?

/-- A line outside of regions has no name. -/
@[simp] theorem pieceNames_line (l : List Char) (ps : List Piece) :
    pieceNames (.line l :: ps) = pieceNames ps := List.filterMap_cons_none rfl

/-- A region has its name. -/
@[simp] theorem pieceNames_region (n : String) (o : List Char) (i : List (List Char))
    (c : List Char) (ps : List Piece) :
    pieceNames (.region n o i c :: ps) = n :: pieceNames ps := by
  have hn : (Piece.region n o i c).name? = some n := rfl
  rw [pieceNames, List.filterMap_cons_some hn, pieceNames]

/-- The names of the regions of a text are those of its pieces. -/
theorem names_eq_pieceNames (text : List Char) : names text = pieceNames (pieces text) := by
  rw [names, Scan.names, regions_scan, names_locate, ← pieceNames]

/-- Proper pieces are scanned one by one, when their names are new. -/
theorem lines_of_isProper {ps : List Piece} (hps : ∀ p ∈ ps, p.IsProper) {s : Scan}
    (hopened : s.opened = none) (hproblems : s.problems = [])
    (hnew : ∀ n ∈ pieceNames ps, n ∉ s.begun) (hnames : (pieceNames ps).Nodup) (offset : Nat) :
    ∃ begun, s.lines offset (ps.flatMap Piece.lines) =
      ⟨s.regions ++ locate offset ps, [], begun, none⟩ := by
  induction ps generalizing s offset with
  | nil =>
    refine ⟨s.begun, ?_⟩
    rw [locate_nil, List.append_nil, ← hproblems, ← hopened]
    rfl
  | cons p ps ih =>
    have hrest := fun q hq => hps q (List.mem_cons_of_mem p hq)
    cases p with
    | line l =>
      have hl : Mark.ofLine l = .plain := isMarkerLine_eq_false.1 (hps _ List.mem_cons_self)
      rw [pieceNames_line] at hnew hnames
      rw [List.flatMap_cons, Piece.lines_line, List.singleton_append, Scan.lines_cons, hl,
        locate_line]
      exact ih hrest hopened hproblems hnew hnames _
    | region n o i c =>
      rw [pieceNames_region] at hnew hnames
      obtain ⟨hn, hnodup⟩ := List.nodup_cons.1 hnames
      have hclean : s.problem? n = none := by simp [Scan.problem?, hproblems]
      have hlines : (Piece.region n o i c :: ps).flatMap Piece.lines =
          o :: (i ++ c :: ps.flatMap Piece.lines) := by
        simp
      have hrun := Scan.lines_region hopened (hnew n List.mem_cons_self) hclean
        (hps _ List.mem_cons_self) offset (ps.flatMap Piece.lines)
      rw [hlines, hrun, locate_region]
      -- The scanner is where it was, with one region more and one name that is used up.
      obtain ⟨begun, hbegun⟩ := ih hrest
        (s := ⟨s.regions ++ [⟨n, offset, offset + o.length, offset + o.length + i.flatten.length,
          offset + o.length + i.flatten.length + c.length⟩], s.problems, n :: s.begun, none⟩)
        rfl hproblems
        (by
          intro m hm hmem
          rcases List.mem_cons.1 hmem with rfl | hmem
          · exact hn hm
          · exact hnew m (List.mem_cons_of_mem _ hm) hmem)
        hnodup (offset + o.length + i.flatten.length + c.length)
      exact ⟨begun, by rw [hbegun, List.append_assoc]; rfl⟩

/-- Lines are cut at the markers of proper pieces with clean names. -/
theorem piecesOf_of_isProper {isClean : String → Bool} {ps : List Piece}
    (hps : ∀ p ∈ ps, p.IsProper) (hclean : ∀ n ∈ pieceNames ps, isClean n = true) :
    piecesOf isClean (ps.flatMap Piece.lines) = ps := by
  induction ps with
  | nil => simp
  | cons p ps ih =>
    have hrest := fun q hq => hps q (List.mem_cons_of_mem p hq)
    cases p with
    | line l =>
      have hl : Mark.ofLine l = .plain := isMarkerLine_eq_false.1 (hps _ List.mem_cons_self)
      rw [pieceNames_line] at hclean
      rw [List.flatMap_cons, Piece.lines_line, List.singleton_append,
        piecesOf_line (takeRegion?_eq_none _ fun n hn => by simp [hl] at hn), ih hrest hclean]
    | region n o i c =>
      obtain ⟨ho, hc, hi⟩ : (Piece.region n o i c).IsMarked := hps _ List.mem_cons_self
      rw [pieceNames_region] at hclean
      -- The first marker line takes the lines up to the first end of its name.
      have htake : takeRegion? isClean o (i ++ c :: ps.flatMap Piece.lines) =
          some (.region n o i c, ps.flatMap Piece.lines) :=
        takeRegion?_eq_some.2 ⟨n, i, c, rfl, rfl, hi, ho, hc, hclean n List.mem_cons_self⟩
      have hlines : (Piece.region n o i c :: ps).flatMap Piece.lines =
          o :: (i ++ c :: ps.flatMap Piece.lines) := by
        simp
      rw [hlines, piecesOf_region htake, ih hrest fun m hm => hclean m (List.mem_cons_of_mem _ hm)]

/-- **A text whose lines are those of proper pieces has just these pieces**, and no problem, when
the regions among them have names of their own. The marks of such lines are pairs of one name, one
pair behind the other. -/
theorem scan_of_lines {text : List Char} {ps : List Piece}
    (hlines : Text.lines text = ps.flatMap Piece.lines) (hps : ∀ p ∈ ps, p.IsProper)
    (hnames : (pieceNames ps).Nodup) :
    (scan text).problems = [] ∧ (scan text).regions = locate 0 ps ∧ pieces text = ps := by
  obtain ⟨begun, hrun⟩ := lines_of_isProper (s := Scan.empty) hps rfl rfl (by simp [Scan.empty])
    hnames 0
  have hscan : scan text = ⟨locate 0 ps, [], begun, none⟩ := by
    rw [scan, hlines, hrun]
    rfl
  refine ⟨by rw [hscan], by rw [hscan], ?_⟩
  rw [pieces, hlines]
  refine piecesOf_of_isProper hps fun n _ => ?_
  rw [isCleanIn, Scan.problem?, hscan]
  rfl

/-! ## Blocks -/

/-- A part of a generated file. -/
inductive Block where
  /-- Text outside of all regions. -/
  | plain (text : List Char)
  /-- A body between the markers of a name. -/
  | region (name : String) (body : List Char)

/-- The line where the region of a name begins. -/
def beginLine (name : String) : List Char := beginTag ++ name.toList ++ ['\n']

/-- The line where the region of a name ends. -/
def endLine (name : String) : List Char := endTag ++ name.toList ++ ['\n']

namespace Block

/-- The text of a block. -/
def text : Block → List Char
  | plain t => t
  | region name body => between name.toList body

/-- The pieces of a block. -/
def pieces : Block → List Piece
  | plain t => (Text.lines t).map Piece.line
  | region name body =>
    [.region name (beginLine name) (Text.lines (closed body)) (endLine name)]

/-- The name of a body. -/
def name? : Block → Option String
  | plain _ => none
  | region name _ => some name

end Block

/-- A body that stands between markers as it is, and does not start with a break. -/
structure IsBody (body : List Char) : Prop where
  plain : IsPlain (closed body)
  head : ∃ c, (closed body).head? = some c ∧ c ≠ '\n'

/-- Plain whole lines, or a body under a name. -/
def Block.IsProper : Block → Prop
  | plain t => IsWhole t ∧ IsPlain t
  | region name body => IsTagName name ∧ IsBody body

/-- The text of a document. -/
def documentText (bs : List Block) : List Char := bs.flatMap Block.text

/-- The pieces of a document. -/
def documentPieces (bs : List Block) : List Piece := bs.flatMap Block.pieces

/-- The names of the bodies of a document. -/
def documentNames (bs : List Block) : List String := bs.filterMap Block.name?

/-! ### Lines of blocks -/

/-- The line that is written where a region begins is read as its begin. -/
theorem ofLine_beginLine {name : String} (h : IsTagName name) :
    Mark.ofLine (beginLine name) = .begins name :=
  ofLine_eq_begins_iff.2 (isTagged_lf h beginTag)

/-- The line that is written where a region ends is read as its end. -/
theorem ofLine_endLine {name : String} (h : IsTagName name) :
    Mark.ofLine (endLine name) = .ends name :=
  ofLine_eq_ends_iff.2 (isTagged_lf h endTag)

/-- No break stands in the tag of a begin. -/
theorem unbroken_beginTag : ∀ c ∈ beginTag, isLineBreak c = false := unbroken_of_all (by decide)

/-- No break stands in the tag of an end. -/
theorem unbroken_endTag : ∀ c ∈ endTag, isLineBreak c = false := unbroken_of_all (by decide)

/-- The line of a tag and a name is one line. -/
theorem lines_name {tag : List Char} (htag : ∀ c ∈ tag, isLineBreak c = false) {name : String}
    (h : IsTagName name) :
    Text.lines (tag ++ name.toList ++ ['\n']) = [tag ++ name.toList ++ ['\n']] := by
  refine lines_lf fun c hc => ?_
  rcases List.mem_append.1 hc with hc | hc
  · exact htag c hc
  · exact isLineBreak_of_not_isBlank (h.2 c hc)

/-! ### Texts and pieces -/

/-- A closed body consists of whole lines. -/
theorem isWhole_closed (body : List Char) : IsWhole (closed body) := by
  unfold closed
  split
  · rename_i h
    rcases Bool.or_eq_true_iff.1 h with h | h
    · exact .inl (List.isEmpty_iff.1 h)
    · exact .inr (by simpa using h)
  · exact .inr (by simp)

/-- A body with its marker lines. -/
theorem between_eq (name : String) (body : List Char) :
    between name.toList body = beginLine name ++ (closed body ++ endLine name) := by
  simp [between, beginLine, endLine]

/-- The begin of a region is a whole line. -/
theorem isWhole_beginLine (name : String) : IsWhole (beginLine name) := .inr (by simp [beginLine])

/-- The end of a region is a whole line. -/
theorem isWhole_endLine (name : String) : IsWhole (endLine name) := .inr (by simp [endLine])

/-- A proper block is made of whole lines. -/
theorem Block.isWhole {b : Block} (h : b.IsProper) : IsWhole b.text := by
  cases b with
  | plain t => exact h.1
  | region name body =>
    rw [Block.text, between_eq]
    exact isWhole_append (isWhole_beginLine name)
      (isWhole_append (isWhole_closed body) (isWhole_endLine name))

/-- The lines of a proper block are those of its pieces. -/
theorem Block.lines_text {b : Block} (h : b.IsProper) :
    Text.lines b.text = b.pieces.flatMap Piece.lines := by
  cases b with
  | plain t =>
    have hall : ∀ ls : List (List Char), (ls.map Piece.line).flatMap Piece.lines = ls := by
      intro ls
      induction ls with
      | nil => rfl
      | cons l ls ih => rw [List.map_cons, List.flatMap_cons, ih]; rfl
    exact (hall _).symm
  | region name body =>
    have hbegin : Text.lines (beginLine name) = [beginLine name] :=
      lines_name unbroken_beginTag h.1
    have hend : Text.lines (endLine name) = [endLine name] := lines_name unbroken_endTag h.1
    rw [Block.text, between_eq, lines_append_of_isWhole (isWhole_beginLine name),
      lines_append_of_isWhole (isWhole_closed body), hbegin, hend, Block.pieces]
    simp

/-- **The lines of a document are those of its pieces.** No line reaches over two blocks, since each
is made of whole lines. -/
theorem lines_documentText {bs : List Block} (h : ∀ b ∈ bs, b.IsProper) :
    Text.lines (documentText bs) = (documentPieces bs).flatMap Piece.lines := by
  induction bs with
  | nil => rfl
  | cons b bs ih =>
    have hb := h b List.mem_cons_self
    have hrest := ih fun c hc => h c (List.mem_cons_of_mem _ hc)
    simp only [documentText, documentPieces, List.flatMap_cons, List.flatMap_append] at hrest ⊢
    rw [lines_append_of_isWhole (Block.isWhole hb), Block.lines_text hb, hrest]

/-- The pieces of a document are proper: nothing outside of regions is a marker, and each region has
just its own two. -/
theorem isProper_of_mem_documentPieces {bs : List Block} (h : ∀ b ∈ bs, b.IsProper) {p : Piece}
    (hp : p ∈ documentPieces bs) : p.IsProper := by
  obtain ⟨b, hb, hp⟩ := List.mem_flatMap.1 hp
  have hproper := h b hb
  cases b with
  | plain t =>
    obtain ⟨l, hl, rfl⟩ := List.mem_map.1 hp
    exact hproper.2.lines l hl
  | region name body =>
    obtain rfl := List.mem_singleton.1 hp
    exact ⟨ofLine_beginLine hproper.1, ofLine_endLine hproper.1, hproper.2.plain.lines⟩

/-- The names of the pieces are those of the bodies. -/
theorem pieceNames_documentPieces (bs : List Block) :
    pieceNames (documentPieces bs) = documentNames bs := by
  have hplain : ∀ ls : List (List Char), pieceNames (ls.map Piece.line) = [] := by
    intro ls
    induction ls with
    | nil => rfl
    | cons l ls ih => rw [List.map_cons, pieceNames_line, ih]
  induction bs with
  | nil => rfl
  | cons b bs ih =>
    have hcons : pieceNames (documentPieces (b :: bs)) =
        pieceNames b.pieces ++ pieceNames (documentPieces bs) := by
      rw [documentPieces, List.flatMap_cons, pieceNames, List.filterMap_append]
      rfl
    -- A region has its name in either list, and a plain text adds no name.
    cases b with
    | plain t =>
      have hname : (Block.plain t).name? = none := rfl
      rw [hcons, ih, Block.pieces, hplain, documentNames, documentNames,
        List.filterMap_cons_none hname, List.nil_append]
    | region name body =>
      have hname : (Block.region name body).name? = some name := rfl
      rw [hcons, ih, Block.pieces, pieceNames_region, documentNames, documentNames,
        List.filterMap_cons_some hname]
      rfl

section Document

variable {bs : List Block} (h : ∀ b ∈ bs, b.IsProper) (hnames : (documentNames bs).Nodup)
include h hnames

/-- The pieces of a document have names of their own. -/
theorem scan_documentPieces :
    (scan (documentText bs)).problems = [] ∧
      (scan (documentText bs)).regions = locate 0 (documentPieces bs) ∧
      pieces (documentText bs) = documentPieces bs :=
  scan_of_lines (lines_documentText h) (fun _ hp => isProper_of_mem_documentPieces h hp)
    (pieceNames_documentPieces bs ▸ hnames)

/-- **The pieces of a document are those of its blocks.** A body is one region with the lines of the
body in it, and a manual text is lines. -/
theorem pieces_document : pieces (documentText bs) = documentPieces bs :=
  (scan_documentPieces h hnames).2.2

/-- **A document of proper blocks has no problems, and its regions are its bodies.** They are found
in the order in which they are written. -/
theorem scan_document :
    (scan (documentText bs)).problems = [] ∧
      (scan (documentText bs)).regions = locate 0 (documentPieces bs) ∧
      (scan (documentText bs)).names = documentNames bs := by
  obtain ⟨hproblems, hregions, hpieces⟩ := scan_documentPieces h hnames
  refine ⟨hproblems, hregions, ?_⟩
  rw [← names, names_eq_pieceNames, hpieces, pieceNames_documentPieces]

omit hnames in
/-- **What stands in front of a document does not touch it**: whole lines with regions of other
names. This is the file that a user has added to above the generated part. -/
theorem scan_prepend {ps : List Piece} (hlines : IsLines (ps.flatMap Piece.lines))
    (hlast : (ps.flatMap Piece.text).getLast? = some '\n') (hps : ∀ p ∈ ps, p.IsProper)
    (hnames : (pieceNames ps ++ documentNames bs).Nodup) :
    (scan (ps.flatMap Piece.text ++ documentText bs)).problems = [] ∧
      (scan (ps.flatMap Piece.text ++ documentText bs)).regions =
        locate 0 (ps ++ documentPieces bs) ∧
      pieces (ps.flatMap Piece.text ++ documentText bs) = ps ++ documentPieces bs := by
  refine scan_of_lines ?_ ?_ ?_
  · rw [lines_append (endsInBreak_of_lf hlast) (not_fuses_of_lf hlast _), flatMap_text,
      lines_flatten hlines, lines_documentText h, List.flatMap_append]
  · exact List.forall_mem_append.2 ⟨hps, fun _ hp => isProper_of_mem_documentPieces h hp⟩
  · rwa [pieceNames, List.filterMap_append, ← pieceNames, ← pieceNames, pieceNames_documentPieces]

end Document

/-- Line feeds are the only breaks of a document. -/
theorem breaks_documentText {bs : List Block} (h : ∀ b ∈ bs, b.IsProper) :
    ∀ c ∈ documentText bs, isLineBreak c = true → c = '\n' := by
  intro c hc hbreak
  obtain ⟨b, hb, hc⟩ := List.mem_flatMap.1 hc
  have hproper := h b hb
  cases b with
  | plain t => exact hproper.2.breaks c hc hbreak
  | region name body =>
    obtain ⟨hname, hbody⟩ := hproper
    -- A marker line has its break at the end only.
    have htag : ∀ tag : List Char, (∀ d ∈ tag, isLineBreak d = false) →
        c ∈ tag ++ name.toList ++ ['\n'] → c = '\n' := by
      intro tag htag hc
      rw [List.mem_append, List.mem_append, List.mem_singleton] at hc
      rcases hc with (hc | hc) | hc
      · rw [htag c hc] at hbreak
        exact absurd hbreak (by decide)
      · rw [isLineBreak_of_not_isBlank (hname.2 c hc)] at hbreak
        exact absurd hbreak (by decide)
      · exact hc
    rw [Block.text, between_eq, List.mem_append, List.mem_append] at hc
    rcases hc with hc | hc | hc
    · exact htag beginTag unbroken_beginTag hc
    · exact hbody.plain.breaks c hc hbreak
    · exact htag endTag unbroken_endTag hc

end FormScaffold.Region
