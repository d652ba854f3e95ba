import FormScaffold.Proofs.Region.Document
import FormScaffold.Proofs.Region.Finding

/-! # Documents put together

Bodies between their markers, with filler around them, make a text. Scanning finds the bodies again,
whatever breaks the filler and the bodies have.

* **`Part`** — a body under a name, and the filler in front of it;
* `assemble?` — the text of parts, with filler behind the last of them;
* `lines_assembled` — its lines are those of the filler and of the regions;
* **`scan_of_assemble`** — the text has no problems, and its regions are the parts, in their order
  and with their bodies;
* `isName_iff` — the names that are accepted: the check of a name does not look at a line feed at
  its end;
* **`IsReadBack text name body`** — scanning finds the body under the name and nothing else;
* **`wraps_iff`** — a body between markers is read back under every name that is accepted, but for
  those that end in a line feed. -/

namespace FormScaffold.Region

open Text

/-! ## Parts -/

/-- No line of the text is a marker. -/
def IsUnmarked (text : List Char) : Prop := ∀ l ∈ Text.lines text, isMarkerLine l = false

instance (text : List Char) : Decidable (IsUnmarked text) :=
  inferInstanceAs (Decidable (∀ l ∈ Text.lines text, isMarkerLine l = false))

/-- A body under a name, and the filler in front of it. -/
structure Part where
  filler : String
  name : String
  body : String

namespace Part

/-- The name is valid, there are no markers but those of the name, and the filler ends where its
last line does. -/
structure IsSound (p : Part) : Prop where
  name : isPlainName p.name.toList = true
  filler : IsUnmarked p.filler.toList
  body : IsUnmarked p.body.toList
  whole : IsWhole p.filler.toList

/-- The body as a piece of the text. -/
def piece (p : Part) : Piece :=
  .region p.name (beginLine p.name) (Text.lines (closed p.body.toList)) (endLine p.name)

end Part

/-- **The text of parts**, with filler behind them. -/
def assemble? : List Part → String → Except InvalidName String
  | [], tail => .ok tail
  | p :: ps, tail => do
    let region ← wrap? p.name p.body
    let rest ← assemble? ps tail
    return p.filler ++ region ++ rest

/-- The text of parts with valid names. -/
def assembled (ps : List Part) (tail : String) : List Char :=
  ps.flatMap (fun p => p.filler.toList ++ between p.name.toList p.body.toList) ++ tail.toList

/-! ## Names -/

/-- What starts the name of a region is a letter or a digit. -/
theorem isAlphanum_of_isNameStart {c : Char} (h : isNameStart c = true) : c.isAlphanum = true := by
  rcases Bool.or_eq_true_iff.1 h with h | h
  · exact Bool.or_eq_true_iff.2 (.inl (Bool.or_eq_true_iff.2 (.inr h)))
  · exact Bool.or_eq_true_iff.2 (.inr h)

/-- What continues the name of a region is no blank. -/
theorem isBlank_of_isNameRest {c : Char} (h : isNameRest c = true) : isBlank c = false := by
  have hcode : 45 ≤ c.toNat ∧ c.toNat ≤ 122 := by
    simp only [isNameRest, Bool.or_eq_true, beq_iff_eq] at h
    rcases h with (((h | rfl) | rfl) | rfl) | rfl
    · have hcase := isAlphanum_iff.1 (isAlphanum_of_isNameStart h)
      omega
    all_goals decide
  exact isBlank_of_code (by omega)

/-- The characters of a valid name may all continue one. -/
theorem isNameRest_of_isPlainName {cs : List Char} (h : isPlainName cs = true) :
    cs ≠ [] ∧ ∀ c ∈ cs, isNameRest c = true := by
  cases cs with
  | nil => exact absurd h (by decide)
  | cons c cs =>
    obtain ⟨hstart, hrest⟩ := Bool.and_eq_true_iff.1 h
    refine ⟨List.cons_ne_nil c cs, List.forall_mem_cons.2 ⟨?_, List.all_eq_true.1 hrest⟩⟩
    rw [isNameRest, hstart]
    rfl

/-- A valid name may stand in a tag. -/
theorem isTagName_of_isPlainName {name : String} (h : isPlainName name.toList = true) :
    IsTagName name := by
  obtain ⟨hne, hrest⟩ := isNameRest_of_isPlainName h
  refine ⟨?_, fun c hc => isBlank_of_isNameRest (hrest c hc)⟩
  rintro rfl
  exact hne rfl

/-- A valid name has no line feed that is not looked at. -/
theorem isName_of_isPlainName {name : String} (h : isPlainName name.toList = true) :
    isName name = true := by
  have hlast : (name.toList.getLast? == some '\n') = false := by
    rw [beq_eq_false_iff_ne]
    intro hlf
    have hrest := (isNameRest_of_isPlainName h).2 _ (List.mem_of_getLast? hlf)
    exact absurd hrest (by decide)
  rw [isName, hlast]
  exact h

/-! ## Lines -/

/-- A body is without markers when it is so before it is closed. -/
theorem isUnmarked_closed {body : List Char} (h : IsUnmarked body) : IsUnmarked (closed body) := by
  unfold closed
  split
  · exact h
  -- With a line feed behind it, the last line is no more a marker than it was.
  · exact marks_eq_nil_iff.1 ((marks_lines_concat_lf body).trans (marks_eq_nil_iff.2 h))

namespace Part.IsSound

variable {p : Part} (h : p.IsSound)
include h

/-- A part stands between its own markers. -/
theorem isMarked_piece : p.piece.IsMarked :=
  have hname := isTagName_of_isPlainName h.name
  ⟨ofLine_beginLine hname, ofLine_endLine hname, isUnmarked_closed h.body⟩

/-- The lines of a body between its markers. -/
theorem lines_between (rest : List Char) :
    Text.lines (between p.name.toList p.body.toList ++ rest) =
      p.piece.lines ++ Text.lines rest := by
  have hname := isTagName_of_isPlainName h.name
  have hbegin : Text.lines (beginLine p.name) = [beginLine p.name] :=
    lines_name unbroken_beginTag hname
  have hend : Text.lines (endLine p.name) = [endLine p.name] := lines_name unbroken_endTag hname
  rw [between_eq, List.append_assoc, List.append_assoc,
    lines_append_of_isWhole (isWhole_beginLine p.name),
    lines_append_of_isWhole (isWhole_closed _), lines_append_of_isWhole (isWhole_endLine p.name),
    hbegin, hend, Part.piece, Piece.lines_region]
  simp

/-- A part marks its begin and its end, and nothing else. -/
theorem marks_piece : marks p.piece.lines = [.begins p.name, .ends p.name] := by
  obtain ⟨hbegin, hend, hinner⟩ := h.isMarked_piece
  rw [Part.piece, Piece.lines_region, marks_cons_of_marker (isMarkerLine_of_begins hbegin),
    marks_append, marks_eq_nil_iff.2 hinner, marks_cons_of_marker (isMarkerLine_of_ends hend),
    hbegin, hend]
  rfl

end Part.IsSound

section Parts

variable {ps : List Part} (hps : ∀ p ∈ ps, p.IsSound)
include hps

/-- Parts with valid names are put together. -/
theorem assemble?_eq (tail : String) :
    assemble? ps tail = .ok (String.ofList (assembled ps tail)) := by
  induction ps with
  | nil => simp [assemble?, assembled]
  | cons p ps ih =>
    obtain ⟨hp, hps⟩ := List.forall_mem_cons.1 hps
    rw [assemble?, wrap?_eq_ok (isName_of_isPlainName hp.name), ih hps]
    refine congrArg Except.ok (String.toList_inj.1 ?_)
    simp [assembled, wrap]

/-- **The lines of a text that parts make up**: the junctions are where lines end. A filler ends its
last line, and so does every region, so that no line reaches over a junction. -/
theorem lines_assembled (tail : String) :
    Text.lines (assembled ps tail) =
      ps.flatMap (fun p => Text.lines p.filler.toList ++ p.piece.lines) ++
        Text.lines tail.toList := by
  induction ps with
  | nil => rfl
  | cons p ps ih =>
    obtain ⟨hp, hps⟩ := List.forall_mem_cons.1 hps
    have hcons : assembled (p :: ps) tail = p.filler.toList ++
        (between p.name.toList p.body.toList ++ assembled ps tail) := by
      simp [assembled]
    -- The filler ends its last line, and the region ends with the line of a marker.
    rw [hcons, lines_append_of_isWhole hp.whole, hp.lines_between, ih hps, List.flatMap_cons]
    simp only [List.append_assoc]

/-- The markers of the text are those of the parts, one part after the other. -/
theorem marks_assembled {tail : String} (htail : IsUnmarked tail.toList) :
    marks (Text.lines (assembled ps tail)) = pairMarks (ps.map (·.name)) := by
  rw [lines_assembled hps, marks_append, marks_eq_nil_iff.2 htail, List.append_nil]
  induction ps with
  | nil => rfl
  | cons p ps ih =>
    obtain ⟨hp, hps⟩ := List.forall_mem_cons.1 hps
    rw [List.flatMap_cons, marks_append, marks_append, marks_eq_nil_iff.2 hp.filler,
      hp.marks_piece, ih hps]
    rfl

/-- The lines of a part stand in the text. -/
theorem infix_lines_piece {p : Part} (hp : p ∈ ps) (tail : String) :
    p.piece.lines <:+: Text.lines (assembled ps tail) := by
  obtain ⟨front, back, rfl⟩ := List.append_of_mem hp
  rw [lines_assembled hps, List.flatMap_append, List.flatMap_cons]
  refine ⟨front.flatMap (fun p => Text.lines p.filler.toList ++ p.piece.lines) ++
    Text.lines p.filler.toList, back.flatMap (fun p => Text.lines p.filler.toList ++
    p.piece.lines) ++ Text.lines tail.toList, ?_⟩
  simp only [List.append_assoc]

/-- **A text put together of parts is read back**: parts with valid names of their own, filler and
bodies without markers, where filler in front of a region ends its last line. Scanning finds no
problem, and just the regions of the parts, in their order and each with its body. -/
theorem scan_of_assemble {tail : String} (htail : IsUnmarked tail.toList)
    (hnames : (ps.map (·.name)).Nodup) :
    ∃ text, assemble? ps tail = .ok text ∧ (scan text.toList).problems = [] ∧
      names text.toList = ps.map (·.name) ∧
      ∀ p ∈ ps, innerOf text.toList p.name = closed p.body.toList := by
  refine ⟨_, assemble?_eq hps tail, ?_⟩
  rw [String.toList_ofList]
  obtain ⟨hproblems, hfound⟩ := scan_of_marks (marks_assembled hps htail) hnames
  refine ⟨hproblems, hfound, fun p hp => ?_⟩
  have hclean : (scan (assembled ps tail)).problem? p.name = none := by
    rw [Scan.problem?, hproblems]
    rfl
  -- The markers of a name without problems are the ones around its body.
  obtain ⟨-, hinner⟩ := mem_names_of_within (hps p hp).isMarked_piece
    (infix_lines_piece hps hp tail) hclean
  rw [hinner, flatten_lines]

end Parts

/-- A body that ends in a carriage return, and an empty body between filler. -/
theorem scan_of_assemble_carriage :
    ∃ text, assemble? [⟨"", "a.1", "x\r"⟩, ⟨"note\n", "b", ""⟩] "end" = .ok text ∧
      (scan text.toList).problems = [] ∧ names text.toList = ["a.1", "b"] ∧
      innerOf text.toList "a.1" = "x\r\n".toList ∧ innerOf text.toList "b" = [] := by
  have hfirst : (Part.mk "" "a.1" "x\r").IsSound := ⟨by decide, by decide, by decide, .inl rfl⟩
  have hsecond : (Part.mk "note\n" "b" "").IsSound := ⟨by decide, by decide, by decide, .inr rfl⟩
  have hsound : ∀ p ∈ [Part.mk "" "a.1" "x\r", Part.mk "note\n" "b" ""], p.IsSound :=
    List.forall_mem_cons.2 ⟨hfirst, List.forall_mem_singleton.2 hsecond⟩
  have htail : IsUnmarked "end".toList := by decide
  obtain ⟨text, htext, hproblems, hnames, hinner⟩ := scan_of_assemble hsound htail (by decide)
  exact ⟨text, htext, hproblems, hnames, hinner _ List.mem_cons_self,
    hinner _ (List.mem_cons_of_mem _ List.mem_cons_self)⟩

/-! ## Names that are accepted -/

/-- **The names that are accepted**: valid ones, and valid ones with a line feed behind them. The
pattern for names ends where a line may end, which is in front of a last line feed too. -/
theorem isName_iff {name : String} :
    isName name = true ↔
      isPlainName name.toList = true ∨
        ∃ stem : String, isPlainName stem.toList = true ∧ name = stem ++ "\n" := by
  constructor
  · intro h
    by_cases hlf : name.toList.getLast? = some '\n'
    · obtain ⟨stem, hstem⟩ := List.getLast?_eq_some_iff.1 hlf
      refine .inr ⟨String.ofList stem, ?_, String.toList_inj.1 (by simp [hstem])⟩
      simpa [isName, hstem] using h
    · left
      simpa [isName, hlf] using h
  · rintro (h | ⟨stem, h, rfl⟩)
    · exact isName_of_isPlainName h
    · simpa [isName] using h

/-! ## One part -/

/-- **Scanning finds the body under the name, and nothing else**: one region and no problem. -/
def IsReadBack (text : List Char) (name : String) (body : List Char) : Prop :=
  (scan text).problems = [] ∧
    ∃ r, (scan text).regions = [r] ∧ r.name = name ∧ r.inner text = body

/-- **A sound part is read back**, whatever follows it. What follows it is whatever text stands
behind, as long as no marker is in it. -/
theorem isReadBack_assembled {p : Part} (hp : p.IsSound) {tail : String}
    (htail : IsUnmarked tail.toList) :
    IsReadBack (assembled [p] tail) p.name (closed p.body.toList) := by
  have hps : ∀ q ∈ [p], q.IsSound := List.forall_mem_singleton.2 hp
  obtain ⟨hproblems, hnames⟩ :=
    scan_of_marks (marks_assembled hps htail) (List.nodup_singleton p.name)
  have hclean : (scan (assembled [p] tail)).problem? p.name = none := by
    rw [Scan.problem?, hproblems]
    rfl
  obtain ⟨-, hinner⟩ := mem_names_of_within hp.isMarked_piece
    (infix_lines_piece hps List.mem_cons_self tail) hclean
  obtain ⟨r, hr, hname⟩ := List.map_eq_singleton_iff.1 hnames
  have hregion : (scan (assembled [p] tail)).region? p.name = some r :=
    (sound_scan _).region?_eq_some.2 ⟨by rw [hr]; exact List.mem_cons_self, hname⟩
  rw [innerOf, hregion, flatten_lines] at hinner
  exact ⟨hproblems, r, hr, hname, hinner⟩

/-- The name and the body that are read back are those of the text. -/
theorem IsReadBack.names {text : List Char} {name : String} {body : List Char}
    (h : IsReadBack text name body) : Region.names text = [name] := by
  obtain ⟨-, r, hr, rfl, -⟩ := h
  rw [Region.names, Scan.names, hr]
  rfl

/-! ## Wrapping -/

/-- No marker stands in nothing. -/
theorem isUnmarked_empty : IsUnmarked "".toList := by decide

/-- A line feed in front of a body makes no marker. -/
theorem isUnmarked_lf {body : List Char} (h : IsUnmarked body) : IsUnmarked ('\n' :: body) := by
  intro l hl
  rw [lines_break isLineBreak_lf (not_fuses_of_lf rfl body)] at hl
  rcases List.mem_cons.1 hl with rfl | hl
  · decide
  · exact h l hl

/-- A line feed in front does not change how a body is closed. -/
theorem closed_lf (body : List Char) : closed ('\n' :: body) = '\n' :: closed body := by
  cases body with
  | nil => rfl
  | cons c cs =>
    unfold closed
    rw [List.getLast?_cons_cons]
    by_cases hlf : (c :: cs).getLast? = some '\n' <;> simp [hlf]

section Unmarked

variable {body : String} (hbody : IsUnmarked body.toList)
include hbody

/-- **A body is read back under a valid name.** It is closed with a line feed when it does not end
in one. -/
theorem isReadBack_between {name : String} (hname : isPlainName name.toList = true) :
    IsReadBack (between name.toList body.toList) name (closed body.toList) := by
  have htext : between name.toList body.toList = assembled [⟨"", name, body⟩] "" := by
    simp [assembled]
  rw [htext]
  exact isReadBack_assembled (p := ⟨"", name, body⟩) ⟨hname, isUnmarked_empty, hbody, .inl rfl⟩
    isUnmarked_empty

/-- **With a line feed behind its name, a body is read back under the name without it.** The line
feed stands in front of what is read. -/
theorem isReadBack_between_lf {stem : String} (hstem : isPlainName stem.toList = true) :
    IsReadBack (between (stem ++ "\n").toList body.toList) stem ('\n' :: closed body.toList) := by
  have htext : between (stem ++ "\n").toList body.toList =
      assembled [⟨"", stem, "\n" ++ body⟩] "\n" := by
    simp [assembled, between, closed_lf]
  have hlf : IsUnmarked ("\n" ++ body).toList := by
    rw [String.toList_append]
    exact isUnmarked_lf hbody
  have htail : IsUnmarked "\n".toList := by decide
  rw [htext, ← closed_lf]
  simpa using isReadBack_assembled (p := ⟨"", stem, "\n" ++ body⟩)
    ⟨hstem, isUnmarked_empty, hlf, .inl rfl⟩ htail

end Unmarked

/-- **The name is refused, or the body is read back under it.** -/
def Wraps (name body : String) : Prop :=
  wrap? name body = .error ⟨name⟩ ∨
    ∃ text, wrap? name body = .ok text ∧ IsReadBack text.toList name (closed body.toList)

/-- **When a body without markers is read back.** Every name is refused, or the body is read back
under it, unless the name is a valid one with a line feed behind it. Such a name is accepted; then
the body is read back under the valid name, with a line feed in front of it. -/
theorem wraps_iff {body : String} (hbody : IsUnmarked body.toList) (name : String) :
    (Wraps name body ↔
      ∀ stem : String, isPlainName stem.toList = true → name ≠ stem ++ "\n") ∧
    ∀ stem : String, isPlainName stem.toList = true → name = stem ++ "\n" →
      ∃ text, wrap? name body = .ok text ∧
        IsReadBack text.toList stem ('\n' :: closed body.toList) := by
  have hlf : ∀ stem : String, isPlainName stem.toList = true →
      wrap? (stem ++ "\n") body = .ok (wrap (stem ++ "\n") body) ∧
        IsReadBack (wrap (stem ++ "\n") body).toList stem ('\n' :: closed body.toList) := by
    intro stem hstem
    refine ⟨wrap?_eq_ok (isName_iff.2 (.inr ⟨stem, hstem, rfl⟩)), ?_⟩
    rw [wrap, String.toList_ofList]
    exact isReadBack_between_lf hbody hstem
  refine ⟨⟨?_, fun hname => ?_⟩, ?_⟩
  · rintro hwraps stem hstem rfl
    obtain ⟨hok, hback⟩ := hlf stem hstem
    rcases hwraps with herror | ⟨text, htext, hread⟩
    · rw [hok] at herror
      exact absurd herror (by simp)
    · -- What is read back has one name, which is the shorter one.
      obtain rfl : wrap (stem ++ "\n") body = text := Except.ok.inj (hok.symm.trans htext)
      have hnames := List.singleton_inj.1 (hback.names.symm.trans hread.names)
      exact absurd (congrArg String.length hnames) (by simp)
  · cases haccepted : isName name with
    | false => exact .inl (by simp [wrap?, haccepted])
    | true =>
      rcases isName_iff.1 haccepted with hplain | ⟨stem, hstem, heq⟩
      · refine .inr ⟨_, wrap?_eq_ok haccepted, ?_⟩
        rw [wrap, String.toList_ofList]
        exact isReadBack_between hbody hplain
      · exact absurd heq (hname stem hstem)
  · rintro stem hstem rfl
    exact ⟨_, hlf stem hstem⟩

/-- **A name with a line feed behind it is accepted**, and the body is read back under another. -/
theorem wraps_iff_lf :
    IsUnmarked "x".toList ∧ Wraps "abc" "x" ∧ ¬Wraps "abc\n" "x" ∧
      ∃ text, wrap? "abc\n" "x" = .ok text ∧ IsReadBack text.toList "abc" "\nx\n".toList := by
  have hbody : IsUnmarked "x".toList := by decide
  obtain ⟨hplain, -⟩ := wraps_iff hbody "abc"
  obtain ⟨hlf, hread⟩ := wraps_iff hbody "abc\n"
  refine ⟨hbody, hplain.2 fun stem _ heq => ?_, fun hwraps => ?_, ?_⟩
  · have hlast := congrArg (fun s : String => s.toList.getLast?) heq
    simp at hlast
  · exact hlf.1 hwraps "abc" (by decide) rfl
  · exact hread "abc" (by decide) rfl

end FormScaffold.Region
