import FormScaffold.Proofs.Region.Changed

/-! # Merging in either line ending

A merge looks at the names that have a region or a problem, and at the inner texts by name. Texts in
which these are the same, but for a change of all inner texts, are merged alike. A text and the same
text with a carriage return before each line feed are such texts.

* **`Matches`** — texts with the same regions and problems, and inner texts that correspond;
* **`merge_congr`** — they are merged with the same conflict, changed regions and warnings;
* `matches_recast` — a text matches itself in another line ending;
* `takeRegion?_inEnding`, `pieces_inEnding` — its regions and its pieces there;
* `undergo_inEnding` — pieces are filled in either ending;
* **`merge_toCarriage`** — merging into a text with carriage returns gives what merging into the
  text gives, with carriage returns. -/

namespace FormScaffold.Region

open Text

/-! ## Texts that match -/

/-- Two texts with the same regions and the same problems, where the inner texts of the second come
from those of the first. -/
structure Matches (g : List Char → List Char) (text text' : List Char) : Prop where
  problems : (scan text').problems = (scan text).problems
  names : names text' = names text
  inner : ∀ name ∈ Region.names text, innerOf text' name = g (innerOf text name)

/-- Matching texts have the same problems. -/
theorem Matches.problem? {g : List Char → List Char} {text text' : List Char}
    (h : Matches g text text') (name : String) :
    (scan text').problem? name = (scan text).problem? name := by
  rw [Scan.problem?, Scan.problem?, h.problems]

/-- A name has a region, which holds its inner text, or none. -/
theorem region?_of_mem_names {text : List Char} {name : String} (h : name ∈ names text) :
    ∃ r, (scan text).region? name = some r ∧ r.name = name ∧ r.inner text = innerOf text name := by
  obtain ⟨r, hr, rfl⟩ := List.mem_map.1 h
  have hfound := (sound_scan text).region?_eq_some.2 ⟨hr, rfl⟩
  refine ⟨r, hfound, rfl, ?_⟩
  rw [innerOf, hfound]
  rfl

/-- A name that was not found has no region. -/
theorem region?_eq_none {text : List Char} {name : String} (h : name ∉ names text) :
    (scan text).region? name = none := by
  cases hr : (scan text).region? name with
  | none => rfl
  | some r => exact absurd (mem_names_of_region? hr) h

/-- What a pair of regions is compared by: its name and the two inner texts. -/
def compared (old fresh : List Char) (p : Region × Region) : String × List Char × List Char :=
  (p.1.name, p.1.inner old, p.2.inner fresh)

/-- The edited regions are told from what the pairs are compared by. -/
theorem names_edits (old fresh : List Char) (pairs : List (Region × Region)) :
    (edits old fresh pairs).map (·.1.name) =
      ((pairs.map (compared old fresh)).filter fun p => p.2.1 != p.2.2).map (·.1) := by
  rw [edits, List.filter_map, List.filter_map, List.map_map, List.map_map]
  rfl

section Matches

variable {g : List Char → List Char} {old old' : List Char} (hold : Matches g old old')
include hold

/-- Matching texts have the same orphans. -/
theorem orphans_congr (ownedNames : List String) :
    orphans (scan old') ownedNames = orphans (scan old) ownedNames := by
  have hnames : (scan old').names = (scan old).names := hold.names
  rw [orphans, orphans, hnames, hold.problems]

/-- The region of an orphan is found in both of two matching texts, or in none. -/
theorem orphanRegion_congr (name : String) :
    (orphanRegion (scan old') name).map (Option.map (·.name)) =
      (orphanRegion (scan old) name).map (Option.map (·.name)) := by
  unfold orphanRegion
  have hnames := hold.names
  rw [hold.problem? name]
  cases (scan old).problem? name with
  | some p => rfl
  | none =>
    by_cases hname : name ∈ names old
    · obtain ⟨r, hr, hrname, -⟩ := region?_of_mem_names hname
      obtain ⟨r', hr', hrname', -⟩ := region?_of_mem_names (hnames.symm ▸ hname)
      simp only [hr, hr', Except.map, Option.map_some, hrname, hrname']
    · have hname' : name ∉ names old' := hnames.symm ▸ hname
      simp only [region?_eq_none hname, region?_eq_none hname']

/-- Orphans are cut out alike. -/
theorem removals_congr (strategy : Strategy) (orphanNames : List String) :
    (removals (scan old') strategy orphanNames).map (List.map (·.name)) =
      (removals (scan old) strategy orphanNames).map (List.map (·.name)) := by
  cases strategy with
  | respectManual => rfl
  | overwriteAuto =>
    have hmap : ∀ s : Scan, (removals s .overwriteAuto orphanNames).map (List.map (·.name)) =
        ((orphanNames.mapM (orphanRegion s)).map (List.map (Option.map (·.name)))).map
          (List.filterMap id) := by
      intro s
      unfold removals
      cases orphanNames.mapM (orphanRegion s) with
      | error c => rfl
      | ok found =>
        show Except.ok _ = Except.ok _
        rw [List.map_filterMap, List.filterMap_map]
        rfl
    rw [hmap, hmap, map_mapM_congr _ fun name _ => orphanRegion_congr hold name]

variable {fresh fresh' : List Char} (hfresh : Matches g fresh fresh')
include hfresh

/-- Owned regions are found alike. -/
theorem owned_congr (name : String) :
    (owned (scan old') (scan fresh') name).map (compared old' fresh') =
      (owned (scan old) (scan fresh) name).map fun p =>
        (p.1.name, g (p.1.inner old), g (p.2.inner fresh)) := by
  unfold owned
  have hnames := hold.names
  have hfreshNames := hfresh.names
  -- What is looked up by name is found, or misses, in the same place of both texts.
  rw [hold.problem? name]
  cases (scan old).problem? name with
  | some p => rfl
  | none =>
    by_cases hname : name ∈ names old
    · obtain ⟨r, hr, hrname, hinner⟩ := region?_of_mem_names hname
      obtain ⟨r', hr', hrname', hinner'⟩ :=
        region?_of_mem_names (hnames.symm ▸ hname)
      by_cases hnew : name ∈ names fresh
      · obtain ⟨q, hq, -, hfilling⟩ := region?_of_mem_names hnew
        obtain ⟨q', hq', -, hfilling'⟩ :=
          region?_of_mem_names (hfreshNames.symm ▸ hnew)
        simp only [hr, hr', hq, hq', Except.map, compared, hrname, hrname', hinner, hinner',
          hfilling, hfilling', hold.inner name hname, hfresh.inner name hnew]
      · have hnew' : name ∉ names fresh' := hfreshNames.symm ▸ hnew
        simp only [hr, hr', region?_eq_none hnew, region?_eq_none hnew']
        rfl
    · have hname' : name ∉ names old' := hnames.symm ▸ hname
      simp only [region?_eq_none hname, region?_eq_none hname']
      rfl

end Matches

/-! ## Merging texts that match -/

/-- **Texts that match are merged alike**: with the same conflict, or with the same changed regions
and warnings. The texts themselves need not be equal: what is compared are the names, the problems,
and whether inner texts differ. -/
theorem merge_congr {g : List Char → List Char} {old old' fresh fresh' : List Char}
    (hold : Matches g old old')
    (hfresh : Matches g (adaptEnding old fresh) (adaptEnding old' fresh'))
    (hinj : ∀ r q : Region, g (r.inner old) = g (q.inner (adaptEnding old fresh)) →
      r.inner old = q.inner (adaptEnding old fresh))
    (ownedNames : List String) (path : String) (strategy : Strategy) :
    (merge old' fresh' ownedNames path strategy).map (fun m => (m.changed, m.warnings)) =
      (merge old fresh ownedNames path strategy).map fun m => (m.changed, m.warnings) := by
  have hpairs := map_mapM_congr ownedNames fun name _ => owned_congr hold hfresh name
  have hremoved := removals_congr hold strategy (orphans (scan old) ownedNames)
  unfold merge
  simp only [orphans_congr hold]
  cases hp : ownedNames.mapM (owned (scan old) (scan (adaptEnding old fresh))) with
  | error c =>
    rw [hp] at hpairs
    rw [map_eq_error.1 hpairs]
    rfl
  | ok pairs =>
    rw [hp] at hpairs
    obtain ⟨pairs', hp', hcompared⟩ := map_eq_ok.1 hpairs
    rw [hp']
    cases hr : removals (scan old) strategy (orphans (scan old) ownedNames) with
    | error c =>
      rw [hr] at hremoved
      rw [map_eq_error.1 hremoved]
      rfl
    | ok removed =>
      rw [hr] at hremoved
      obtain ⟨removed', hr', hcut⟩ := map_eq_ok.1 hremoved
      rw [hr']
      have hedits : (edits old' (adaptEnding old' fresh') pairs').map (·.1.name) =
          (edits old (adaptEnding old fresh) pairs).map (·.1.name) := by
        rw [names_edits, names_edits, hcompared, List.filter_map, List.filter_map, List.map_map,
          List.map_map]
        refine congrArg (List.map _) (List.filter_congr fun p _ => ?_)
        -- The inner texts of a pair differ exactly when what comes from them differs.
        rw [Bool.eq_iff_iff]
        simpa [compared] using not_congr ⟨hinj p.1 p.2, congrArg g⟩
      show Except.ok (_, _) = Except.ok (_, _)
      rw [hedits, hcut]

/-! ## One text in two endings -/

/-- A text matches itself in another line ending. -/
theorem matches_recast (carriage : Bool) (text : List Char) :
    Matches (recast carriage) text (recast carriage text) := by
  refine ⟨?_, names_recast carriage text, fun name hname => innerOf_recast carriage hname⟩
  refine (scan_congr ?_).1
  rw [lines_recast]
  exact marks_map fun l hl => ofLine_recast ((isLines_lines text).one l hl) carriage

/-- What stands in a region stands in the text. -/
theorem mem_of_mem_inner {r : Region} {text : List Char} {c : Char} (h : c ∈ r.inner text) :
    c ∈ text := List.mem_of_mem_take (List.mem_of_mem_drop h)

section Lines

variable {carriage : Bool}

/-- Lines are parted at the first marker line in every ending alike. -/
theorem span_inEnding {ls : List (List Char)}
    (h : ∀ l ∈ ls, isMarkerLine (inEnding carriage l) = isMarkerLine l) :
    (ls.map (inEnding carriage)).takeWhile (!isMarkerLine ·) =
        (ls.takeWhile (!isMarkerLine ·)).map (inEnding carriage) ∧
      (ls.map (inEnding carriage)).dropWhile (!isMarkerLine ·) =
        (ls.dropWhile (!isMarkerLine ·)).map (inEnding carriage) := by
  induction ls with
  | nil => exact ⟨rfl, rfl⟩
  | cons l ls ih =>
    obtain ⟨hl, hls⟩ := List.forall_mem_cons.1 h
    obtain ⟨htake, hdrop⟩ := ih hls
    rw [List.map_cons, List.takeWhile_cons, List.takeWhile_cons, List.dropWhile_cons,
      List.dropWhile_cons, hl, htake, hdrop]
    cases isMarkerLine l <;> exact ⟨rfl, rfl⟩

/-- A region that begins with a line that marks the same in an ending is the region there. -/
theorem takeRegion?_inEnding (isClean : String → Bool) {opening : List Char}
    {ls : List (List Char)}
    (h : ∀ l ∈ opening :: ls, Mark.ofLine (inEnding carriage l) = Mark.ofLine l) :
    takeRegion? isClean (inEnding carriage opening) (ls.map (inEnding carriage)) =
      (takeRegion? isClean opening ls).map fun r =>
        (r.1.inEnding carriage, r.2.map (inEnding carriage)) := by
  obtain ⟨hopening, hls⟩ := List.forall_mem_cons.1 h
  obtain ⟨htake, hdrop⟩ := @span_inEnding carriage ls fun l hl => by
    rw [isMarkerLine, hls l hl, ← isMarkerLine]
  rw [takeRegion?, takeRegion?, htake, hdrop]
  cases hrest : ls.dropWhile (!isMarkerLine ·) with
  | nil => rfl
  | cons closing rest =>
    have hmem : closing ∈ ls := (List.dropWhile_sublist _).subset (hrest ▸ List.mem_cons_self)
    simp only [List.map_cons, regionName?, hopening, hls closing hmem, Option.map_map]
    rfl

/-- The pieces of lines that mark the same in an ending are the pieces there. -/
theorem piecesOf_inEnding (isClean : String → Bool) {ls : List (List Char)}
    (h : ∀ l ∈ ls, Mark.ofLine (inEnding carriage l) = Mark.ofLine l) :
    piecesOf isClean (ls.map (inEnding carriage)) =
      (piecesOf isClean ls).map (Piece.inEnding carriage) := by
  induction ls using piecesOf.induct isClean with
  | case1 => simp
  | case2 l ls p rest hp ih =>
    have hrest : ∀ m ∈ rest, m ∈ l :: ls := by
      obtain ⟨-, inner, closing, -, rfl, -⟩ := takeRegion?_eq_some.1 hp
      exact fun m hm => by simp [hm]
    have htaken := takeRegion?_inEnding isClean h
    rw [hp, Option.map_some] at htaken
    rw [List.map_cons, piecesOf_region htaken, piecesOf_region hp, List.map_cons,
      ih fun m hm => h m (hrest m hm)]
  | case3 l ls hl ih =>
    have hnone := takeRegion?_inEnding isClean h
    rw [hl, Option.map_none] at hnone
    rw [List.map_cons, piecesOf_line hnone, piecesOf_line hl, List.map_cons,
      ih fun m hm => h m (List.mem_cons_of_mem _ hm)]
    rfl

end Lines

section Ending

variable {text : List Char} (h : ∀ c ∈ text, c ≠ '\r')
include h

/-- A text without carriage returns is put into an ending line by line, whatever breaks its lines
have. -/
theorem lines_inEnding_of_ne (carriage : Bool) :
    Text.lines (inEnding carriage text) = (Text.lines text).map (inEnding carriage) := by
  rw [← recast_eq_inEnding h, lines_recast]
  refine List.map_congr_left fun l hl => recast_eq_inEnding (fun c hc => h c ?_) carriage
  rw [← flatten_lines text]
  exact List.mem_flatten.2 ⟨l, hl, hc⟩

/-- **The pieces of a text in an ending are its pieces there.** Lines end at the same places, and a
marker is a marker with a carriage return behind it. -/
theorem pieces_inEnding (carriage : Bool) :
    pieces (inEnding carriage text) = (pieces text).map (Piece.inEnding carriage) := by
  have hmatches := matches_recast carriage text
  rw [recast_eq_inEnding h] at hmatches
  have hclean : isCleanIn (inEnding carriage text) = isCleanIn text := by
    funext name
    rw [isCleanIn, isCleanIn, hmatches.problem? name]
  rw [pieces, hclean, lines_inEnding_of_ne h]
  refine piecesOf_inEnding _ fun l hl => ofLine_inEnding ((isLines_lines text).one l hl) ?_ carriage
  intro c hc
  refine h c ?_
  rw [← flatten_lines text]
  exact List.mem_flatten.2 ⟨l, hl, hc⟩

end Ending

/-- A fate in an ending: what a region is filled with is put there. -/
def Fate.inEnding (carriage : Bool) : Fate → Fate
  | .kept => .kept
  | .filled text => .filled (Text.inEnding carriage text)
  | .cut => .cut

/-- **Pieces meet their fates in every ending alike.** What a region is filled with is put into the
ending as well. -/
theorem undergo_inEnding {carriage : Bool} {fate fate' : String → Fate} {ps : List Piece}
    (hfate : ∀ n ∈ pieceNames ps, fate' n = (fate n).inEnding carriage)
    (hfilled : ∀ n text, fate n = .filled text → ∀ c ∈ text, c ≠ '\r') :
    undergo fate' (ps.map (Piece.inEnding carriage)) =
      (undergo fate ps).map (Piece.inEnding carriage) := by
  induction ps with
  | nil => rfl
  | cons p ps ih =>
    cases p with
    | line l =>
      have hrest := ih hfate
      rw [List.map_cons, undergo_line, List.map_cons, ← hrest]
      exact undergo_line _ _ _
    | region n o i c =>
      rw [pieceNames_region] at hfate
      obtain ⟨hn, hlater⟩ := List.forall_mem_cons.1 hfate
      have hrest := ih hlater
      rw [List.map_cons, Piece.inEnding]
      cases hf : fate n with
      | kept =>
        rw [hf] at hn
        rw [undergo_kept _ _ _ _ hn, undergo_kept o i c ps hf, hrest]
        rfl
      | cut =>
        rw [hf] at hn
        rw [undergo_cut _ _ _ _ hn, undergo_cut o i c ps hf, hrest]
      -- The new text has no carriage returns, so that its lines are those of the text with them.
      | filled text =>
        rw [hf] at hn
        rw [undergo_filled _ _ _ _ hn, undergo_filled o i c ps hf, hrest,
          lines_inEnding_of_ne (hfilled n text hf)]
        rfl

/-- The text of pieces in an ending. -/
theorem flatMap_text_inEnding (carriage : Bool) (ps : List Piece) :
    (ps.map (Piece.inEnding carriage)).flatMap Piece.text =
      inEnding carriage (ps.flatMap Piece.text) := by
  rw [flatMap_text, flatMap_text, flatMap_lines_inEnding, inEnding_flatten]

/-! ## Merging in either ending -/

/-- What is found in a text has its characters. -/
theorem mem_of_mem_innerOf {text : List Char} {name : String} {c : Char}
    (h : c ∈ innerOf text name) : c ∈ text := by
  unfold innerOf at h
  cases hr : (scan text).region? name with
  | none =>
    rw [hr] at h
    simp at h
  | some r =>
    rw [hr] at h
    exact mem_of_mem_inner h

/-- **A merge into a text that was put in an ending leaves what the merge into the text leaves, in
this ending.** What the regions are filled with comes from the fresh text in the ending of the file,
and the rest is the file. -/
theorem text_inEnding {old old' fresh fresh' : List Char} (hold : ∀ c ∈ old, c ≠ '\r')
    {carriage : Bool} (hadapted : ∀ c ∈ adaptEnding old fresh, c ≠ '\r')
    (hold' : old' = inEnding carriage old)
    (hfresh' : adaptEnding old' fresh' = inEnding carriage (adaptEnding old fresh))
    {ownedNames : List String} (hn : ownedNames.Nodup) {path path' : String} {strategy : Strategy}
    {m m' : Merged} (h : merge old fresh ownedNames path strategy = .ok m)
    (h' : merge old' fresh' ownedNames path' strategy = .ok m') :
    m'.text = inEnding carriage m.text := by
  rw [text_merged h' hn, text_merged h hn, ← flatMap_text_inEnding, hfresh', hold',
    pieces_inEnding hold, undergo_inEnding]
  · -- A name that is owned is filled with what the fresh text has in the ending.
    intro n _
    unfold fateOf
    by_cases hname : n ∈ ownedNames
    · have hfound := (mem_names_of_merge h n hname).2
      rw [if_pos hname, if_pos hname, Fate.inEnding, ← recast_eq_inEnding hadapted,
        innerOf_recast carriage hfound,
        recast_eq_inEnding fun c hc => hadapted c (mem_of_mem_innerOf hc)]
    · rw [if_neg hname, if_neg hname]
      cases strategy <;> rfl
  · intro n text htext c hc
    by_cases hname : n ∈ ownedNames
    · rw [fateOf_owned hname] at htext
      obtain rfl := Fate.filled.inj htext
      exact hadapted c (mem_of_mem_innerOf hc)
    · unfold fateOf at htext
      rw [if_neg hname] at htext
      cases strategy <;> exact absurd htext (by simp)

/-- What is read as a marker ends in no break. -/
theorem not_endsInBreak_of_nameAfter {tag line : List Char} {name : String}
    (h : nameAfter tag line = some name) : ¬EndsInBreak line := by
  obtain ⟨indent, word, rest, rfl, -, hne, hword, hrest, -⟩ := nameAfter_eq_some h
  rintro ⟨c, hc, hbreak⟩
  have hend : word ++ rest ≠ [] := List.append_ne_nil_of_left_ne_nil hne rest
  rw [List.getLast?_append_of_ne_nil _ (List.append_ne_nil_of_right_ne_nil tag hend),
    List.getLast?_append_of_ne_nil _ hend] at hc
  rcases List.mem_append.1 (List.mem_of_getLast? hc) with hmem | hmem
  · have hblank := hword c hmem
    rw [isBlank_of_isLineBreak hbreak] at hblank
    exact absurd hblank (by decide)
  · rcases (by simpa [isIndent] using hrest c hmem : c = ' ' ∨ c = '\t') with rfl | rfl
    · exact absurd hbreak (by decide)
    · exact absurd hbreak (by decide)

/-- Breaks other than line feeds and carriage returns stay at the end of a line. -/
theorem stripBreak_of_ne {l : List Char} (hlf : ∀ c ∈ l, c ≠ '\n') (hcr : ∀ c ∈ l, c ≠ '\r') :
    stripBreak l = l := by
  have hmem : ∀ c rest, l.reverse = c :: rest → c ∈ l := by
    intro c rest heq
    rw [← List.mem_reverse, heq]
    exact List.mem_cons_self
  unfold stripBreak
  split
  · rename_i heq
    exact absurd rfl (hlf _ (hmem _ _ heq))
  · rename_i heq
    exact absurd rfl (hlf _ (hmem _ _ heq))
  · rename_i heq
    exact absurd rfl (hcr _ (hmem _ _ heq))
  · rfl

/-- A text without line feeds and carriage returns has no regions: no other break ends a marker
line. -/
theorem names_eq_nil {text : List Char} (hlf : ∀ c ∈ text, c ≠ '\n')
    (hcr : ∀ c ∈ text, c ≠ '\r') : names text = [] := by
  refine List.eq_nil_iff_forall_not_mem.2 fun name hname => ?_
  obtain ⟨o, i, c, ⟨ho, -, -⟩, hin, -⟩ := exists_within_of_mem_names hname
  have hmem : ∀ d ∈ o, d ∈ text := by
    intro d hd
    rw [← flatten_lines text]
    exact List.mem_flatten.2 ⟨o, hin.subset (by simp), hd⟩
  -- The line that ends the region follows, so that the first line ends in a break.
  have hstacked : IsStacked (o :: (i ++ [c])) := (isLines_lines text).isStacked.sublist hin.sublist
  obtain ⟨-, hbreak, -⟩ := isStacked_cons.1 hstacked
  have hstrip : stripBreak o = o :=
    stripBreak_of_ne (fun d hd => hlf d (hmem d hd)) fun d hd => hcr d (hmem d hd)
  have hbegins : nameAfter beginTag o = some name := by
    rw [Mark.ofLine, hstrip] at ho
    split at ho
    · rename_i hfound
      rw [hfound, Mark.begins.inj ho]
    · split at ho <;> exact absurd ho (by simp)
  exact not_endsInBreak_of_nameAfter hbegins (hbreak (by simp))

section Carriage

variable {old fresh : List Char} (hold : ∀ c ∈ old, c ≠ '\r') (hfresh : ∀ c ∈ fresh, c ≠ '\r')
  {ownedNames : List String} (path : String) (strategy : Strategy)
include hold

/-- A text without carriage returns takes what is merged into it as it is. -/
theorem adaptEnding_of_ne (fresh : List Char) : adaptEnding old fresh = fresh := by
  rw [adaptEnding_eq_recast, hasCarriage_eq_false hold, recast_false]

/-- Without line feeds there is nothing to put into another ending, and no region to be filled or
cut out. -/
theorem merge_toCarriage_of_ne (hlf : ∀ c ∈ old, c ≠ '\n') (fresh : List Char) :
    merge (toCarriage old) fresh ownedNames path strategy =
      (merge old fresh ownedNames path strategy).map fun m =>
        { m with text := toCarriage m.text } := by
  have hself : toCarriage old = old := inEnding_of_ne hlf true
  have hnone := names_eq_nil hlf hold
  rw [hself]
  cases h : merge old fresh ownedNames path strategy with
  | error c => rfl
  | ok m =>
    have hchanged : m.changed = [] := by
      refine List.eq_nil_iff_forall_not_mem.2 fun name hname => ?_
      rcases (mem_changed h).1 hname with ⟨howned, -⟩ | ⟨-, hregion, -⟩
      · exact List.not_mem_nil (hnone ▸ (mem_names_of_merge h name howned).1)
      · exact List.not_mem_nil (hnone ▸ hregion)
    have htext := text_of_changed_eq_nil h hchanged
    show Except.ok m = Except.ok (Merged.mk _ m.changed m.warnings)
    rw [htext, hself, ← htext]

include hfresh

/-- A line feed in the file makes it one with carriage returns, so that what is merged into it gets
them too. -/
theorem adaptEnding_toCarriage (hlf : '\n' ∈ old) :
    adaptEnding (toCarriage old) fresh = toCarriage fresh := by
  have hcarriage : hasCarriage (toCarriage old) = true := hasCarriage_inEnding hold hlf true
  rw [adaptEnding_eq_recast, hcarriage]
  exact recast_eq_inEnding hfresh true

/-- With line feeds, the two files are merged alike. -/
theorem report_toCarriage (hlf : '\n' ∈ old) :
    (merge (toCarriage old) fresh ownedNames path strategy).map
        (fun m => (m.changed, m.warnings)) =
      (merge old fresh ownedNames path strategy).map fun m => (m.changed, m.warnings) := by
  have hmatches : ∀ text : List Char, (∀ c ∈ text, c ≠ '\r') →
      Matches (recast true) text (toCarriage text) := by
    intro text htext
    have hself := matches_recast true text
    rwa [recast_eq_inEnding htext] at hself
  refine merge_congr (hmatches old hold) ?_ (fun r q heq => ?_) ownedNames path strategy
  · rw [adaptEnding_of_ne hold, adaptEnding_toCarriage hold hfresh hlf]
    exact hmatches fresh hfresh
  · rw [adaptEnding_of_ne hold] at heq ⊢
    have hinner : ∀ c ∈ r.inner old, c ≠ '\r' := fun c hc => hold c (mem_of_mem_inner hc)
    have hinner' : ∀ c ∈ q.inner fresh, c ≠ '\r' := fun c hc => hfresh c (mem_of_mem_inner hc)
    rw [recast_eq_inEnding hinner, recast_eq_inEnding hinner'] at heq
    exact inEnding_inj hinner hinner' heq

/-- **Merging commutes with carriage returns** where the text has a line feed. Such a text has an
ending of its own, to which the fresh text is adapted. -/
theorem merge_toCarriage_of_mem (hn : ownedNames.Nodup) (hlf : '\n' ∈ old) :
    merge (toCarriage old) fresh ownedNames path strategy =
      (merge old fresh ownedNames path strategy).map fun m =>
        { m with text := toCarriage m.text } := by
  have hreport : (merge (toCarriage old) fresh ownedNames path strategy).map
      (fun m => (m.changed, m.warnings)) =
        (merge old fresh ownedNames path strategy).map fun m => (m.changed, m.warnings) :=
    report_toCarriage hold hfresh path strategy hlf
  cases h : merge old fresh ownedNames path strategy with
  | error c =>
    rw [h] at hreport
    rw [map_eq_error.1 hreport]
    rfl
  | ok m =>
    rw [h] at hreport
    obtain ⟨m', h', heq⟩ := map_eq_ok.1 hreport
    obtain ⟨hchanged, hwarnings⟩ := Prod.mk.inj heq
    -- The reports agree, so that both merges succeed and only the texts are left.
    have htext : m'.text = toCarriage m.text := by
      show m'.text = inEnding true m.text
      refine text_inEnding hold ?_ rfl ?_ hn h h'
      · rwa [adaptEnding_of_ne hold]
      · rw [adaptEnding_of_ne hold]
        exact adaptEnding_toCarriage hold hfresh hlf
    rw [h']
    show Except.ok (Merged.mk m'.text m'.changed m'.warnings) = Except.ok (Merged.mk _ _ _)
    rw [htext, hchanged, hwarnings]

end Carriage

/-- **Merging into a text with carriage returns is merging into the text**: where neither text has a
carriage return, a carriage return before each line feed of the file leads to the same conflict, or
to the same changed regions and warnings and the merged text with a carriage return before each of
its line feeds. -/
theorem merge_toCarriage {old fresh : List Char} (hold : '\r' ∉ old) (hfresh : '\r' ∉ fresh)
    {ownedNames : List String} (hn : ownedNames.Nodup) (path : String) (strategy : Strategy) :
    merge (toCarriage old) fresh ownedNames path strategy =
      (merge old fresh ownedNames path strategy).map fun m =>
        { m with text := toCarriage m.text } := by
  have hold' : ∀ c ∈ old, c ≠ '\r' := fun c hc heq => hold (heq ▸ hc)
  have hfresh' : ∀ c ∈ fresh, c ≠ '\r' := fun c hc heq => hfresh (heq ▸ hc)
  by_cases hlf : '\n' ∈ old
  · exact merge_toCarriage_of_mem hold' hfresh' path strategy hn hlf
  · exact merge_toCarriage_of_ne hold' path strategy (fun c hc heq => hlf (heq ▸ hc)) fresh

/-- A region of a file with carriage returns is filled with carriage returns. -/
theorem merge_toCarriage_region :
    ∃ m, merge (toCarriage (between "a".toList "old\n".toList))
        (between "a".toList "new\n".toList) ["a"] "file" .overwriteAuto = .ok m ∧
      m.text = "// >>> doctype-ui:begin a\r\nnew\r\n// <<< doctype-ui:end a\r\n".toList := by
  have hmerge := @merge_toCarriage (between "a".toList "old\n".toList)
    (between "a".toList "new\n".toList) (by decide) (by decide) ["a"] (by decide) "file"
    .overwriteAuto
  cases h : merge (between "a".toList "old\n".toList) (between "a".toList "new\n".toList) ["a"]
      "file" .overwriteAuto with
  | error c =>
    have hok : (merge (between "a".toList "old\n".toList) (between "a".toList "new\n".toList) ["a"]
        "file" .overwriteAuto).toBool = true := by decide +kernel
    rw [h] at hok
    exact absurd hok Bool.false_ne_true
  | ok m =>
    rw [h] at hmerge
    refine ⟨_, hmerge, ?_⟩
    show toCarriage m.text = _
    rw [text_merged h (by decide)]
    decide +kernel

end FormScaffold.Region
