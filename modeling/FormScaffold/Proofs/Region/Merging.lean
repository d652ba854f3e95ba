import FormScaffold.Proofs.Region.Splicing
import FormScaffold.Proofs.Traversal

/-! # What merging does to a file

Merging replaces the inner text of the owned regions and, by one strategy, cuts the orphans out.

* `mem_of_owned` — what it takes for a pair of an old and a new region to be found;
* `removals_eq` — the orphans that are cut out;
* `fateOf` — the fate of each name: owned regions are filled with the inner text of the fresh text,
  the others are kept or cut;
* **`text_of_merge`** — the merged text is the existing text with exactly these fates. -/

namespace FormScaffold.Region

/-! ## Regions by name -/

/-- A region is found by its name, which no other region has. -/
theorem Scan.Sound.region?_eq_some {s : Scan} (h : s.Sound) {name : String} {r : Region} :
    s.region? name = some r ↔ r ∈ s.regions ∧ r.name = name := by
  constructor
  · intro hr
    exact ⟨List.mem_of_find?_eq_some hr, by simpa using List.find?_some hr⟩
  · rintro ⟨hr, rfl⟩
    obtain ⟨r', hr'⟩ : ∃ r', s.region? r.name = some r' :=
      Option.isSome_iff_exists.1 (List.find?_isSome.2 ⟨r, hr, by simp⟩)
    have hname : r'.name = r.name := by simpa using List.find?_some hr'
    rw [hr', List.inj_on_of_nodup_map h.nodup (List.mem_of_find?_eq_some hr') hr hname]

/-- The region of a name was found. -/
theorem mem_names_of_region? {text : List Char} {name : String} {r : Region}
    (h : (scan text).region? name = some r) : name ∈ names text := by
  obtain ⟨hr, rfl⟩ := (sound_scan text).region?_eq_some.1 h
  exact List.mem_map_of_mem hr

/-- The name of a region has no problem. -/
theorem problem?_of_mem_names {text : List Char} {name : String} (h : name ∈ names text) :
    (scan text).problem? name = none := by
  obtain ⟨r, hr, rfl⟩ := List.mem_map.1 h
  exact (sound_scan text).clean r hr

/-- The inner text of the region of a name; nothing when there is no such region. -/
def innerOf (text : List Char) (name : String) : List Char :=
  ((scan text).region? name).elim [] (·.inner text)

/-! ## Owned regions -/

/-- A region that is owned is found in both texts, and has no problem in the text that is there. -/
theorem owned_eq_ok {current generated : Scan} {name : String} {old new : Region} :
    owned current generated name = .ok (old, new) ↔
      current.problem? name = none ∧ current.region? name = some old ∧
        generated.region? name = some new := by
  unfold owned
  cases current.problem? name with
  | some p => simp
  | none =>
    cases current.region? name with
    | none => simp
    | some r => cases generated.region? name <;> simp

/-- The owned regions are found under their names, in the order of the names. -/
theorem mem_of_owned {current generated : Scan} {ownedNames : List String}
    {pairs : List (Region × Region)} (hs : current.Sound)
    (h : ownedNames.mapM (owned current generated) = .ok pairs) :
    pairs.map (·.1.name) = ownedNames ∧ ∀ p ∈ pairs,
      current.region? p.1.name = some p.1 ∧ generated.region? p.1.name = some p.2 := by
  have hpairs := mapM_eq_ok.1 h
  clear h
  induction hpairs with
  | nil => simp
  | @cons name p names pairs hp _ ih =>
    obtain ⟨hnames, hfound⟩ := ih
    obtain ⟨old, new⟩ := p
    obtain ⟨-, hold, hnew⟩ := owned_eq_ok.1 hp
    have hname : old.name = name := (hs.region?_eq_some.1 hold).2
    refine ⟨by rw [List.map_cons, hnames, hname], ?_⟩
    intro q hq
    rcases List.mem_cons.1 hq with rfl | hq
    · simp only [hname]
      exact ⟨hold, hnew⟩
    · exact hfound q hq

/-! ## Orphans -/

/-- An orphan is a name of the text that is there, with a region or with a problem, which the
artifact does not own. -/
theorem mem_orphans {current : Scan} {ownedNames : List String} {name : String} :
    name ∈ orphans current ownedNames ↔
      (name ∈ current.names ∨ name ∈ current.problems.map (·.1)) ∧ name ∉ ownedNames := by
  unfold orphans
  rw [List.mem_mergeSort, List.mem_eraseDups, List.mem_filter, List.mem_append]
  simp

/-- No name is an orphan twice. -/
theorem nodup_orphans (current : Scan) (ownedNames : List String) :
    (orphans current ownedNames).Nodup :=
  (List.mergeSort_perm _ _).nodup_iff.2 (nodup_eraseDups _)

/-- The orphans that are cut out are those that have a region. -/
theorem removals_eq {current : Scan} {names : List String} {removed : List Region}
    (h : removals current .overwriteAuto names = .ok removed) :
    removed = names.filterMap current.region? := by
  unfold removals at h
  cases hfound : names.mapM (orphanRegion current) with
  | error e =>
    rw [hfound] at h
    simp [bind, Except.bind] at h
  | ok found =>
    rw [hfound] at h
    obtain rfl : found.filterMap id = removed := by
      simpa [bind, Except.bind, pure, Except.pure] using h
    have hall := mapM_eq_ok.1 hfound
    -- None of the names has a problem, as the first one would have been the conflict.
    have hmap : found = names.map current.region? := by
      clear h hfound
      induction hall with
      | nil => rfl
      | @cons name r names found hr _ ih =>
        rw [List.map_cons, ← ih]
        unfold orphanRegion at hr
        cases hp : current.problem? name with
        | some p => simp [hp] at hr
        | none =>
          rw [hp] at hr
          rw [Except.ok.inj hr]
    rw [hmap, List.filterMap_map]
    rfl

/-- The regions that are found by names have these names. -/
theorem names_filterMap_region? (s : Scan) (names : List String) :
    ((names.filterMap s.region?).map (·.name)).Sublist names := by
  induction names with
  | nil => simp
  | cons name names ih =>
    cases hr : s.region? name with
    | none =>
      rw [List.filterMap_cons_none hr]
      exact ih.cons _
    | some r =>
      have hname : r.name = name := by simpa using List.find?_some hr
      rw [List.filterMap_cons_some hr, List.map_cons, hname]
      exact ih.cons_cons _

/-- The orphans that are cut out are the regions of names that are not owned, each once. -/
theorem mem_removed {current : Scan} {ownedNames : List String} {strategy : Strategy}
    {removed : List Region} (hs : current.Sound)
    (h : removals current strategy (orphans current ownedNames) = .ok removed) :
    (removed.map (·.name)).Nodup ∧ ∀ r, r ∈ removed ↔
      strategy = .overwriteAuto ∧ r ∈ current.regions ∧ r.name ∉ ownedNames := by
  cases strategy with
  | respectManual =>
    obtain rfl : [] = removed := Except.ok.inj h
    simp
  | overwriteAuto =>
    obtain rfl := removals_eq h
    refine ⟨(nodup_orphans _ _).sublist (names_filterMap_region? _ _), fun r => ?_⟩
    rw [List.mem_filterMap]
    constructor
    · rintro ⟨name, hname, hr⟩
      obtain ⟨hmem, rfl⟩ := hs.region?_eq_some.1 hr
      exact ⟨rfl, hmem, (mem_orphans.1 hname).2⟩
    · rintro ⟨-, hmem, hname⟩
      exact ⟨r.name, mem_orphans.2 ⟨.inl (List.mem_map_of_mem hmem), hname⟩,
        hs.region?_eq_some.2 ⟨hmem, rfl⟩⟩

/-! ## Fates -/

/-- What merging makes of the region of a name. -/
def fateOf (strategy : Strategy) (ownedNames : List String) (fresh : List Char) (name : String) :
    Fate :=
  if name ∈ ownedNames then .filled (innerOf fresh name)
  else
    match strategy with
    | .respectManual => .kept
    | .overwriteAuto => .cut

/-- A region that is owned is filled anew under both strategies. -/
theorem fateOf_owned {ownedNames : List String} {name : String} (h : name ∈ ownedNames)
    (strategy : Strategy) (fresh : List Char) :
    fateOf strategy ownedNames fresh name = .filled (innerOf fresh name) := if_pos h

/-- The splices of merging, as the splices by which regions meet their fates. -/
theorem splices_of_edits {existing fresh : List Char} (strategy : Strategy)
    {ownedNames : List String} {pairs : List (Region × Region)}
    (hpairs : ∀ p ∈ pairs, p.1.name ∈ ownedNames ∧
      (scan fresh).region? p.1.name = some p.2) :
    (edits existing fresh pairs).map (fun e => Splice.mk e.1.innerStart e.1.innerEnd e.2) =
      splices (fateOf strategy ownedNames fresh) existing (pairs.map (·.1)) := by
  induction pairs with
  | nil => rfl
  | cons p pairs ih =>
    obtain ⟨hname, hnew⟩ := hpairs p List.mem_cons_self
    have hrest := ih fun q hq => hpairs q (List.mem_cons_of_mem _ hq)
    have hinner : innerOf fresh p.1.name = p.2.inner fresh := by
      rw [innerOf, hnew]
      rfl
    rw [List.map_cons, splices_cons, ← hrest, fateOf_owned hname, Fate.splice?, hinner, edits,
      List.map_cons, List.filter_cons]
    by_cases hsame : p.1.inner existing = p.2.inner fresh
    · simp [hsame, edits]
    · simp [hsame, edits]

/-- Taking orphans away is cutting their regions. -/
theorem splices_of_removed (existing fresh : List Char) {strategy : Strategy}
    {ownedNames : List String} {removed : List Region}
    (h : ∀ r ∈ removed, strategy = .overwriteAuto ∧ r.name ∉ ownedNames) :
    removed.map (fun r => Splice.mk r.start r.finish []) =
      splices (fateOf strategy ownedNames fresh) existing removed := by
  induction removed with
  | nil => rfl
  | cons r removed ih =>
    have hrest := ih fun q hq => h q (List.mem_cons_of_mem _ hq)
    obtain ⟨rfl, hname⟩ := h r List.mem_cons_self
    rw [List.map_cons, hrest, splices_cons, fateOf, if_neg hname]
    rfl

/-- A region that is kept asks for no splice. -/
theorem splices_filter {fate : String → Fate} {text : List Char} {rs : List Region}
    {isMoved : Region → Bool} (h : ∀ r ∈ rs, isMoved r = false → fate r.name = .kept) :
    splices fate text (rs.filter isMoved) = splices fate text rs := by
  induction rs with
  | nil => rfl
  | cons r rs ih =>
    have hrest := ih fun q hq => h q (List.mem_cons_of_mem _ hq)
    rw [splices_cons, ← hrest]
    cases hr : isMoved r with
    | true => rw [List.filter_cons_of_pos hr, splices_cons]
    | false =>
      rw [List.filter_cons_of_neg (by simp [hr]), h r List.mem_cons_self hr]
      rfl

/-! ## The merged text -/

/-- What a merge that succeeds has found. -/
theorem merge_eq_ok {existing fresh : List Char} {ownedNames : List String} {path : String}
    {strategy : Strategy} {m : Merged}
    (h : merge existing fresh ownedNames path strategy = .ok m) :
    ∃ pairs removed,
      ownedNames.mapM (owned (scan existing) (scan (adaptEnding existing fresh))) = .ok pairs ∧
      removals (scan existing) strategy (orphans (scan existing) ownedNames) = .ok removed ∧
      m.text = splice
        ((edits existing (adaptEnding existing fresh) pairs).map
            (fun e => Splice.mk e.1.innerStart e.1.innerEnd e.2) ++
          removed.map fun r => Splice.mk r.start r.finish []) existing ∧
      m.changed = (edits existing (adaptEnding existing fresh) pairs).map (·.1.name) ++
        removed.map (·.name) := by
  unfold merge at h
  -- Both lookups have given something, as an error of either is that of the merge.
  cases hpairs : ownedNames.mapM (owned (scan existing) (scan (adaptEnding existing fresh))) with
  | error c => simp [hpairs, bind, Except.bind] at h
  | ok pairs =>
    cases hremoved : removals (scan existing) strategy (orphans (scan existing) ownedNames) with
    | error c => simp [hpairs, hremoved, bind, Except.bind] at h
    | ok removed =>
      simp only [hpairs, hremoved, bind, Except.bind, pure, Except.pure] at h
      refine ⟨pairs, removed, rfl, rfl, ?_⟩
      rw [← Except.ok.inj h]
      exact ⟨rfl, rfl⟩

/-- The regions that merging changes or cuts out are, in some order, those that are owned or
orphans to be cut. -/
theorem moved_perm {current generated : Scan} {ownedNames : List String} {strategy : Strategy}
    {pairs : List (Region × Region)} {removed : List Region} (hs : current.Sound)
    (hn : ownedNames.Nodup) (hpairs : ownedNames.mapM (owned current generated) = .ok pairs)
    (hremoved : removals current strategy (orphans current ownedNames) = .ok removed) :
    (pairs.map (·.1) ++ removed).Perm
      (current.regions.filter fun r => r.name ∈ ownedNames ∨ strategy = .overwriteAuto) := by
  obtain ⟨hnames, hfound⟩ := mem_of_owned hs hpairs
  obtain ⟨hnodup, hmem⟩ := mem_removed hs hremoved
  -- The owned names are those of the pairs, and each name has one region.
  have holds : ∀ r, r ∈ pairs.map (·.1) ↔ r ∈ current.regions ∧ r.name ∈ ownedNames := by
    intro r
    constructor
    · intro hr
      obtain ⟨p, hp, rfl⟩ := List.mem_map.1 hr
      refine ⟨(hs.region?_eq_some.1 (hfound p hp).1).1, ?_⟩
      rw [← hnames]
      exact List.mem_map_of_mem hp
    · rintro ⟨hr, hname⟩
      rw [← hnames] at hname
      obtain ⟨p, hp, hpname⟩ := List.mem_map.1 hname
      have hsame : current.region? p.1.name = some r := hs.region?_eq_some.2 ⟨hr, hpname.symm⟩
      rw [(hfound p hp).1] at hsame
      exact List.mem_map.2 ⟨p, hp, Option.some.inj hsame⟩
  have hfirst : (pairs.map (·.1)).Nodup := by
    refine List.Nodup.of_map (·.name) ?_
    rw [List.map_map]
    exact hnames ▸ hn
  refine (List.perm_ext_iff_of_nodup ?_ ?_).2 fun r => ?_
  · refine List.nodup_append.2 ⟨hfirst, List.Nodup.of_map _ hnodup, ?_⟩
    rintro r hr r' hr' rfl
    exact ((hmem r).1 hr').2.2 ((holds r).1 hr).2
  · exact (List.Nodup.of_map _ hs.nodup).filter _
  · rw [List.mem_append, holds, hmem, List.mem_filter, decide_eq_true_eq]
    by_cases hname : r.name ∈ ownedNames
    · simp [hname]
    · simp [hname, and_comm]

section Merged

variable {existing fresh : List Char} {ownedNames : List String} {path : String}
  {strategy : Strategy} {m : Merged}
  (h : merge existing fresh ownedNames path strategy = .ok m)
include h

/-- What is owned has a region on both sides of a merge. -/
theorem mem_names_of_merge : ∀ name ∈ ownedNames,
    name ∈ names existing ∧ name ∈ names (adaptEnding existing fresh) := by
  obtain ⟨pairs, removed, hpairs, -, -⟩ := merge_eq_ok h
  obtain ⟨hnames, hfound⟩ := mem_of_owned (sound_scan existing) hpairs
  intro name hname
  rw [← hnames] at hname
  obtain ⟨p, hp, rfl⟩ := List.mem_map.1 hname
  exact ⟨mem_names_of_region? (hfound p hp).1, mem_names_of_region? (hfound p hp).2⟩

/-- **Merging gives each piece of the existing text its fate.** The pieces are those of the scan, so
that every region that is found meets its fate once, and all lines between them stay. -/
theorem text_merged (hn : ownedNames.Nodup) :
    m.text = (undergo (fateOf strategy ownedNames (adaptEnding existing fresh))
      (pieces existing)).flatMap Piece.text := by
  obtain ⟨pairs, removed, hpairs, hremoved, htext, -⟩ := merge_eq_ok h
  have hs := sound_scan existing
  obtain ⟨hnames, hfound⟩ := mem_of_owned hs hpairs
  have howned : ∀ p ∈ pairs, p.1.name ∈ ownedNames := by
    intro p hp
    rw [← hnames]
    exact List.mem_map_of_mem hp
  -- Regions that are not owned are cut, or kept when manual text is respected.
  have hkept : ∀ r ∈ (scan existing).regions,
      decide (r.name ∈ ownedNames ∨ strategy = .overwriteAuto) = false →
        fateOf strategy ownedNames (adaptEnding existing fresh) r.name = .kept := by
    intro r _ hr
    obtain ⟨hname, hstrategy⟩ := not_or.1 (of_decide_eq_false hr)
    unfold fateOf
    rw [if_neg hname]
    cases strategy with
    | respectManual => rfl
    | overwriteAuto => exact absurd rfl hstrategy
  have hcut : ∀ r ∈ removed, strategy = .overwriteAuto ∧ r.name ∉ ownedNames := by
    intro r hr
    obtain ⟨hstrategy, -, hname⟩ := ((mem_removed hs hremoved).2 r).1 hr
    exact ⟨hstrategy, hname⟩
  -- Edits and cuts are the splices of the fates, whatever their order.
  rw [htext, splices_of_edits strategy fun p hp => ⟨howned p hp, (hfound p hp).2⟩,
    splices_of_removed existing (adaptEnding existing fresh) hcut]
  refine splice_eq ?_
  rw [← splices_filter hkept, splices, splices, splices, ← List.filterMap_append]
  exact (moved_perm hs hn hpairs hremoved).filterMap _

end Merged

/-- **The merged text is the existing text with the fates that merging gives to its regions.** The
regions of the existing text are cut at the places where scanning finds them. -/
theorem text_of_merge {existing fresh : List Char} {ownedNames : List String} {path : String}
    {strategy : Strategy} {m : Merged} (hn : ownedNames.Nodup)
    (h : merge existing fresh ownedNames path strategy = .ok m) :
    (∀ name ∈ ownedNames, name ∈ names existing ∧ name ∈ names (adaptEnding existing fresh)) ∧
      (pieces existing).flatMap Piece.text = existing ∧
      locate 0 (pieces existing) = (scan existing).regions ∧
      (∀ p ∈ pieces existing, p.IsMarked) ∧
      m.text = (undergo (fateOf strategy ownedNames (adaptEnding existing fresh))
        (pieces existing)).flatMap Piece.text := by
  refine ⟨mem_names_of_merge h, flatMap_text_pieces existing, (regions_scan existing).symm, ?_,
    text_merged h hn⟩
  intro p hp
  exact isMarked_of_mem_piecesOf hp

/-- An owned region is filled, an orphan is cut out, and the line before them stays. -/
theorem text_of_merge_orphan :
    ∃ m, merge ("kept\n".toList ++ between "a".toList "old\n".toList ++ between "b".toList [])
        (between "a".toList "new\n".toList) ["a"] "file" .overwriteAuto = .ok m ∧
      m.text = "kept\n".toList ++ between "a".toList "new\n".toList := by
  cases h : merge ("kept\n".toList ++ between "a".toList "old\n".toList ++ between "b".toList [])
      (between "a".toList "new\n".toList) ["a"] "file" .overwriteAuto with
  | error c =>
    have hok : (merge ("kept\n".toList ++ between "a".toList "old\n".toList ++
        between "b".toList []) (between "a".toList "new\n".toList) ["a"] "file"
        .overwriteAuto).toBool = true := by decide +kernel
    rw [h] at hok
    exact absurd hok Bool.false_ne_true
  | ok m =>
    obtain ⟨-, -, -, -, htext⟩ := text_of_merge (by decide) h
    refine ⟨m, rfl, ?_⟩
    rw [htext]
    decide +kernel

end FormScaffold.Region
