import FormScaffold.Proofs.Region.Cutting

/-! # What merging leaves to merge

After a merge the owned regions hold what the fresh document fills them with. Merging the document
once more finds nothing to do, when the line ending of the file is the same as before.

* **`innerOf_merged`** — what the owned regions hold after a merge;
* **`text_merged_eq_iff`** — a text without cut regions stays when its regions held this already;
* `problems_merged`, `names_merged` — after cutting, a text has the owned regions alone;
* **`merge_again_iff`** — merging again changes nothing, unless cutting changed the line ending;
* `exists_merge_again` — and if it did, the second merge is the last to change anything. -/

namespace FormScaffold.Region

open Text

/-! ## Merging that cuts -/

section Cut

variable {old fresh : List Char} {ownedNames : List String}

/-- Merging that cuts orphans out finds no name with a problem. -/
theorem problems_of_merge {path : String} {m : Merged}
    (h : merge old fresh ownedNames path .overwriteAuto = .ok m) : (scan old).problems = [] := by
  obtain ⟨pairs, removed, hpairs, hremoved, -⟩ := merge_eq_ok h
  refine List.eq_nil_iff_forall_not_mem.2 fun q hq => ?_
  obtain ⟨name, p⟩ := q
  have hproblem : (scan old).problem? name ≠ none := by
    intro hnone
    have hfind := List.find?_eq_none.1 (Option.map_eq_none_iff.1 hnone) _ hq
    exact hfind (beq_self_eq_true name)
  -- A name with a problem stops the merge, be it owned or an orphan.
  by_cases hname : name ∈ ownedNames
  · obtain ⟨⟨oldRegion, newRegion⟩, -, hok⟩ :=
      exists_of_mem_forall₂ (mapM_eq_ok.1 hpairs).flip hname
    exact hproblem (owned_eq_ok.1 hok).1
  · have horphan : name ∈ orphans (scan old) ownedNames :=
      mem_orphans.2 ⟨.inr (List.mem_map_of_mem hq), hname⟩
    obtain ⟨found, hfound, -⟩ := bind_eq_ok.1 hremoved
    obtain ⟨r, -, hok⟩ := exists_of_mem_forall₂ (mapM_eq_ok.1 hfound).flip horphan
    unfold orphanRegion at hok
    cases hp : (scan old).problem? name with
    | none => exact hproblem hp
    | some p' =>
      rw [hp] at hok
      exact absurd hok (by simp)

variable (hproblems : (scan old).problems = [])
  (hfound : ∀ name ∈ ownedNames, name ∈ names old ∧ name ∈ names (adaptEnding old fresh))
include hproblems hfound

/-- Merging that cuts orphans out succeeds where no name has a problem and the owned regions are
there. -/
theorem exists_merge_overwriteAuto (path : String) :
    ∃ m, merge old fresh ownedNames path .overwriteAuto = .ok m := by
  obtain ⟨pairs, hpairs⟩ := exists_pairs hfound
  obtain ⟨removed, hremoved⟩ : ∃ removed,
      removals (scan old) .overwriteAuto (orphans (scan old) ownedNames) = .ok removed := by
    obtain ⟨found, hmap⟩ : ∃ found,
        (orphans (scan old) ownedNames).mapM (orphanRegion (scan old)) = .ok found := by
      refine exists_mapM_eq_ok fun name _ => ⟨(scan old).region? name, ?_⟩
      rw [orphanRegion, Scan.problem?, hproblems]
      rfl
    exact ⟨_, bind_eq_ok.2 ⟨found, hmap, rfl⟩⟩
  unfold merge
  simp only [hpairs, hremoved, bind, Except.bind]
  exact ⟨_, rfl⟩

/-- **Merging changes nothing when there is nothing to cut and every owned region holds what it
would be filled with.** There are no splices then, and so the text stays. -/
theorem merge_of_held (hnames : ∀ name ∈ names old, name ∈ ownedNames)
    (hheld : ∀ name ∈ ownedNames, innerOf old name = innerOf (adaptEnding old fresh) name)
    (path : String) : merge old fresh ownedNames path .overwriteAuto = .ok ⟨old, [], []⟩ := by
  obtain ⟨pairs, hpairs⟩ := exists_pairs hfound
  obtain ⟨hpaired, hregions⟩ := mem_of_owned (sound_scan old) hpairs
  have horphans : orphans (scan old) ownedNames = [] := by
    refine List.eq_nil_iff_forall_not_mem.2 fun name hname => ?_
    obtain ⟨horphan, howned⟩ := mem_orphans.1 hname
    rw [hproblems] at horphan
    rcases horphan with horphan | horphan
    · exact howned (hnames name horphan)
    · exact absurd horphan (by simp)
  -- What is held agrees with the fresh text, so that nothing is to be edited.
  have hedits : edits old (adaptEnding old fresh) pairs = [] := by
    refine List.filter_eq_nil_iff.2 fun e he => ?_
    obtain ⟨p, hp, rfl⟩ := List.mem_map.1 he
    have hname : p.1.name ∈ ownedNames := by
      rw [← hpaired]
      exact List.mem_map_of_mem hp
    have hinner := hheld _ hname
    rw [innerOf, innerOf, (hregions p hp).1, (hregions p hp).2] at hinner
    simpa using hinner
  unfold merge
  simp [hpairs, horphans, hedits, removals, splice, bind, Except.bind, pure, Except.pure]

end Cut

/-! ## Filling and cutting -/

/-- Merging that cuts orphans out fills the owned regions first, and keeps only these. -/
theorem undergo_overwriteAuto (ownedNames : List String) (fresh : List Char) (ps : List Piece) :
    undergo (fateOf .overwriteAuto ownedNames fresh) ps =
      keep (ownedNames.contains ·) (undergo (fateOf .respectManual ownedNames fresh) ps) := by
  induction ps with
  | nil => rfl
  | cons p ps ih =>
    cases p with
    | line l =>
      rw [undergo_line, undergo_line, ih]
      exact (keep_line _ _ _).symm
    | region n o i c =>
      by_cases hn : n ∈ ownedNames
      · rw [undergo_filled _ _ _ _ (fateOf_owned hn _ _),
          undergo_filled _ _ _ _ (fateOf_owned hn _ _),
          ih, keep_region_of_pos (List.contains_iff_mem.2 hn)]
      · have hcut : fateOf .overwriteAuto ownedNames fresh n = .cut := if_neg hn
        have hkept : fateOf .respectManual ownedNames fresh n = .kept := if_neg hn
        rw [undergo_cut o i c ps hcut, undergo_kept o i c ps hkept, ih,
          keep_region_of_neg (by simpa using hn)]

/-- A region that is filled is found among the pieces with what fills it. -/
theorem exists_mem_undergo {fate : String → Fate} {text : List Char} {name : String}
    (hname : name ∈ names text) {inner : List Char} (hfate : fate name = .filled inner) :
    ∃ o c, Mark.ofLine o = .begins name ∧ Mark.ofLine c = .ends name ∧
      Piece.region name o (Text.lines inner) c ∈ undergo fate (pieces text) := by
  rw [names_eq_pieceNames] at hname
  obtain ⟨p, hp, hpname⟩ := List.mem_filterMap.1 hname
  cases p with
  | line l => exact absurd hpname (by simp [Piece.name?])
  | region n o i c =>
    obtain rfl : n = name := Option.some.inj hpname
    obtain ⟨ho, hc, -⟩ : (Piece.region n o i c).IsMarked := isMarked_of_mem_piecesOf hp
    refine ⟨o, c, ho, hc, List.mem_filterMap.2 ⟨_, hp, ?_⟩⟩
    simp only [Piece.undergo, hfate]

/-- A text whose regions are filled with what they hold stays. -/
theorem flatMap_text_undergo_of_held {text : List Char} {fate : String → Fate} {ps : List Piece}
    (htext : ps.flatMap Piece.text = text) (hregions : (scan text).regions = locate 0 ps)
    (hfate : ∀ name, fate name = .kept ∨ fate name = .filled (innerOf text name)) :
    (undergo fate ps).flatMap Piece.text = text := by
  have hheld : ∀ n o i c, Piece.region n o i c ∈ ps → innerOf text n = i.flatten :=
    fun n o i c hmem => innerOf_of_mem htext hregions hmem
  rw [← htext]
  clear htext hregions
  induction ps with
  | nil => rfl
  | cons p ps ih =>
    have hrest := ih fun n o i c hmem => hheld n o i c (List.mem_cons_of_mem _ hmem)
    cases p with
    | line l => rw [undergo_line, List.flatMap_cons, List.flatMap_cons, hrest]
    | region n o i c =>
      rcases hfate n with hf | hf
      · rw [undergo_kept o i c ps hf, List.flatMap_cons, List.flatMap_cons, hrest]
      · rw [undergo_filled o i c ps hf, List.flatMap_cons, List.flatMap_cons, hrest,
          Piece.text_region, Piece.text_region, flatten_lines, hheld n o i c List.mem_cons_self]

/-! ## Merging documents -/

section Merged

variable {bs : List Block} (h : ∀ b ∈ bs, b.IsProper) (hnodup : (documentNames bs).Nodup)
include h hnodup

/-- What a document fills a region of a file with: its body, in the line ending of the file. -/
theorem innerOf_adaptEnding (old : List Char) {name : String} (hname : name ∈ documentNames bs) :
    innerOf (adaptEnding old (documentText bs)) name =
      inEnding (hasCarriage old) (innerOf (documentText bs) name) := by
  obtain ⟨body, hmem⟩ := exists_of_mem_documentNames hname
  have hbody : innerOf (documentText bs) name = closed body := innerOf_inEnding h hnodup hmem false
  rw [adaptEnding_documentText h, innerOf_inEnding h hnodup hmem, hbody]

/-- The two endings of a body differ. -/
theorem inEnding_innerOf_inj {name : String} (hname : name ∈ documentNames bs) {a b : Bool}
    (hab : inEnding a (innerOf (documentText bs) name) =
      inEnding b (innerOf (documentText bs) name)) : a = b := by
  obtain ⟨body, hmem⟩ := exists_of_mem_documentNames hname
  have hbody : innerOf (documentText bs) name = closed body := innerOf_inEnding h hnodup hmem false
  rw [hbody] at hab
  rw [← ((h _ hmem).2.isFilling a).carriage, ← ((h _ hmem).2.isFilling b).carriage, hab]

/-- A document has its regions in every line ending. -/
theorem mem_names_adaptEnding (old : List Char) {name : String} :
    name ∈ names (adaptEnding old (documentText bs)) ↔ name ∈ documentNames bs := by
  rw [adaptEnding_documentText h, names_inEnding h hnodup]

omit hnodup in
/-- What stands in front of a document leaves what its regions hold. -/
theorem innerOf_prepend {ps : List Piece} (hlines : IsLines (ps.flatMap Piece.lines))
    (hlast : (ps.flatMap Piece.text).getLast? = some '\n') (hps : ∀ p ∈ ps, p.IsProper)
    (hnames : (pieceNames ps ++ documentNames bs).Nodup) {name : String}
    (hname : name ∈ documentNames bs) :
    innerOf (ps.flatMap Piece.text ++ documentText bs) name = innerOf (documentText bs) name := by
  obtain ⟨-, hregions, -⟩ := scan_prepend h hlines hlast hps hnames
  have hnodup := (List.nodup_append.1 hnames).2.1
  obtain ⟨body, hmem⟩ := exists_of_mem_documentNames hname
  have hpiece : Piece.region name (beginLine name) (Text.lines (closed body)) (endLine name) ∈
      documentPieces bs := List.mem_flatMap.2 ⟨_, hmem, List.mem_singleton.2 rfl⟩
  have htext : (documentPieces bs).flatMap Piece.text = documentText bs := by
    rw [← pieces_document h hnodup, flatMap_text_pieces]
  rw [innerOf_of_mem (by rw [List.flatMap_append, htext]) hregions
      (List.mem_append_right _ hpiece),
    innerOf_of_mem htext (scan_document h hnodup).2.1 hpiece]

variable {old : List Char} {path : String} {m : Merged}

section Respecting

variable (hm : merge old (documentText bs) (documentNames bs) path .respectManual = .ok m)
include hm

/-- **After a merge the owned regions hold the bodies of the document**, in the line ending of the
file. A merge adapts what it puts in to the file, whose ending may be another one than that of the
document. -/
theorem innerOf_merged {name : String} (hname : name ∈ documentNames bs) :
    innerOf m.text name = inEnding (hasCarriage old) (innerOf (documentText bs) name) := by
  have hfills := fills_fateOf h hnodup old
  obtain ⟨o, c, -, -, hmem⟩ := exists_mem_undergo (mem_names_of_merge hm name hname).1
    (fateOf_owned hname .respectManual (adaptEnding old (documentText bs)))
  have hpieces := pieces_undergo hfills old
  rw [← innerOf_adaptEnding h hnodup old hname, text_merged hm hnodup,
    innerOf_of_mem rfl (by rw [regions_scan, hpieces]) hmem, flatten_lines]

/-- **A merge that cuts nothing leaves a text exactly when its owned regions hold the bodies of the
document already**, in the line ending of the file. What stands outside of regions is never looked
at. -/
theorem text_merged_eq_iff :
    m.text = old ↔ ∀ name ∈ documentNames bs,
      innerOf old name = inEnding (hasCarriage old) (innerOf (documentText bs) name) := by
  constructor
  · intro htext name hname
    have hinner := innerOf_merged h hnodup hm hname
    rwa [htext] at hinner
  · intro hheld
    rw [text_merged hm hnodup]
    refine flatMap_text_undergo_of_held (flatMap_text_pieces old) (regions_scan old) fun name => ?_
    by_cases hname : name ∈ documentNames bs
    · refine .inr ?_
      rw [fateOf_owned hname, innerOf_adaptEnding h hnodup old hname, hheld name hname]
    · exact .inl (if_neg hname)

end Respecting

section Overwriting

variable (hm : merge old (documentText bs) (documentNames bs) path .overwriteAuto = .ok m)
include hm

/-- The merge that cuts the orphans out cuts them out of the text that the other merge leaves. -/
theorem exists_merge_respectManual :
    ∃ m₁, merge old (documentText bs) (documentNames bs) path .respectManual = .ok m₁ ∧
      (scan m₁.text).problems = [] ∧ names m₁.text = names old ∧
      m.text = (keep ((documentNames bs).contains ·) (pieces m₁.text)).flatMap Piece.text := by
  have hfills := fills_fateOf h hnodup old
  obtain ⟨m₁, hm₁⟩ := (exists_merge_document_iff h hnodup old path).2 fun name hname =>
    (mem_names_of_merge hm name hname).1
  have htext := text_merged hm₁ hnodup
  refine ⟨m₁, hm₁, ?_, ?_, ?_⟩
  · rw [htext, problems_undergo hfills, problems_of_merge hm]
  · rw [htext, names_undergo hfills]
  · rw [htext, pieces_undergo hfills, ← undergo_overwriteAuto, text_merged hm hnodup]

/-- After cutting, no marker is out of place. -/
theorem problems_merged : (scan m.text).problems = [] := by
  obtain ⟨m₁, -, hproblems, -, htext⟩ := exists_merge_respectManual h hnodup hm
  rw [htext]
  exact (scan_cut hproblems _).1

/-- **After cutting, the regions are the owned ones.** They may stand in another order than in the
document. -/
theorem names_merged : (names m.text).Perm (documentNames bs) := by
  obtain ⟨m₁, -, hproblems, hnames, htext⟩ := exists_merge_respectManual h hnodup hm
  have hkept : names m.text = (names old).filter ((documentNames bs).contains ·) := by
    rw [htext, (scan_cut hproblems _).2.1, hnames]
  refine (List.perm_ext_iff_of_nodup (sound_scan _).nodup hnodup).2 fun name => ?_
  show name ∈ names m.text ↔ _
  rw [hkept, List.mem_filter, List.contains_iff_mem]
  exact ⟨And.right, fun hname => ⟨(mem_names_of_merge hm name hname).1, hname⟩⟩

/-- **After cutting, the owned regions hold the bodies of the document.** They are in the ending
that the file had before the orphans were cut out. -/
theorem innerOf_merged_overwriteAuto {name : String} (hname : name ∈ documentNames bs) :
    innerOf m.text name = inEnding (hasCarriage old) (innerOf (documentText bs) name) := by
  obtain ⟨m₁, hm₁, hproblems, hnames, htext⟩ := exists_merge_respectManual h hnodup hm
  have hmem : name ∈ names m₁.text := hnames ▸ (mem_names_of_merge hm name hname).1
  rw [names_eq_pieceNames] at hmem
  obtain ⟨p, hp, hpname⟩ := List.mem_filterMap.1 hmem
  cases p with
  | line l => exact absurd hpname (by simp [Piece.name?])
  | region n o i c =>
    obtain rfl : n = name := Option.some.inj hpname
    rw [htext, (scan_cut hproblems _).2.2 n o i c hp (List.contains_iff_mem.2 hname),
      ← innerOf_merged h hnodup hm₁ hname,
      innerOf_of_mem (flatMap_text_pieces _) (regions_scan _) hp]

/-- The owned regions are there when the document is merged again. -/
theorem mem_names_merged (name : String) (hname : name ∈ documentNames bs) :
    name ∈ names m.text ∧ name ∈ names (adaptEnding m.text (documentText bs)) :=
  ⟨(names_merged h hnodup hm).mem_iff.2 hname, (mem_names_adaptEnding h hnodup _).2 hname⟩

/-- **Merging again changes nothing exactly when cutting left the line ending of the file.** With
the orphans, carriage returns may go, so that the file has another ending for the second merge than
it had for the first. -/
theorem merge_again_iff (hne : documentNames bs ≠ []) (path' : String) :
    merge m.text (documentText bs) (documentNames bs) path' .overwriteAuto = .ok ⟨m.text, [], []⟩ ↔
      hasCarriage m.text = hasCarriage old := by
  constructor
  · intro hagain
    obtain ⟨name, hname⟩ := List.exists_mem_of_ne_nil _ hne
    have hfirst := innerOf_merged_overwriteAuto h hnodup hm hname
    have hsecond := innerOf_merged_overwriteAuto h hnodup hagain hname
    exact inEnding_innerOf_inj h hnodup hname (hsecond.symm.trans hfirst)
  · intro hending
    refine merge_of_held (problems_merged h hnodup hm) (mem_names_merged h hnodup hm)
      (fun name hname => (names_merged h hnodup hm).mem_iff.1 hname) (fun name hname => ?_) path'
    rw [innerOf_merged_overwriteAuto h hnodup hm hname, innerOf_adaptEnding h hnodup _ hname,
      hending]

/-- **The second merge is the last to change anything.** The second merge cuts nothing, so that the
ending stays from then on. -/
theorem exists_merge_again (hne : documentNames bs ≠ []) (path' : String) :
    ∃ m', merge m.text (documentText bs) (documentNames bs) path' .overwriteAuto = .ok m' ∧
      merge m'.text (documentText bs) (documentNames bs) path' .overwriteAuto =
        .ok ⟨m'.text, [], []⟩ := by
  obtain ⟨m', hm'⟩ := exists_merge_overwriteAuto (problems_merged h hnodup hm)
    (mem_names_merged h hnodup hm) path'
  refine ⟨m', hm', (merge_again_iff h hnodup hm' hne path').2 ?_⟩
  -- All regions are owned now: they are filled, and none is cut.
  have hkept : keep ((documentNames bs).contains ·) (undergo (fateOf .respectManual
      (documentNames bs) (adaptEnding m.text (documentText bs))) (pieces m.text)) =
      undergo (fateOf .respectManual (documentNames bs) (adaptEnding m.text (documentText bs)))
        (pieces m.text) := by
    have hfills := fills_fateOf h hnodup m.text
    refine keep_eq_self fun name hname => List.contains_iff_mem.2 ?_
    rw [pieceNames_undergo hfills, ← names_eq_pieceNames] at hname
    exact (names_merged h hnodup hm).mem_iff.1 hname
  rw [text_merged hm' hnodup, undergo_overwriteAuto, hkept]
  exact hasCarriage_undergo (fills_fateOf h hnodup m.text) rfl

end Overwriting

end Merged

end FormScaffold.Region
