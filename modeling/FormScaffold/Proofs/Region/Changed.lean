import FormScaffold.Proofs.Region.Refilling

/-! # The regions that a merge reports

A merge compares the owned regions one by one and reports those that differ, and those that it cuts
out. Whether it left the text as it was is seen from the text alone. The two agree: no marker line
comes or goes with the inner text of a region, so that a cut shows in the regions that are left, and
an inner text that a merge puts in never gets longer, so that nothing makes up for what was added.

* **`mem_changed`** — the regions that are reported are those that differ;
* `length_undergo` — filling regions with texts that are no shorter makes no text shorter;
* **`text_eq_iff`** — a merge that changes no region changes nothing, and the other way round. -/

namespace FormScaffold.Region

open Text

/-! ## What is reported -/

/-- The owned regions that are edited are those that hold something else. -/
theorem mem_names_edits {old fresh : List Char} {ownedNames : List String}
    {pairs : List (Region × Region)}
    (h : ownedNames.mapM (owned (scan old) (scan fresh)) = .ok pairs) {name : String} :
    name ∈ (edits old fresh pairs).map (·.1.name) ↔
      name ∈ ownedNames ∧ innerOf old name ≠ innerOf fresh name := by
  obtain ⟨hnames, hfound⟩ := mem_of_owned (sound_scan old) h
  -- The first region of a name is the one that was found for it, in both texts.
  have hinner : ∀ p ∈ pairs, innerOf old p.1.name = p.1.inner old ∧
      innerOf fresh p.1.name = p.2.inner fresh := by
    intro p hp
    obtain ⟨hold, hfresh⟩ := hfound p hp
    rw [innerOf, innerOf, hold, hfresh]
    exact ⟨rfl, rfl⟩
  constructor
  · intro hname
    obtain ⟨e, he, rfl⟩ := List.mem_map.1 hname
    obtain ⟨hmem, hdiffers⟩ := List.mem_filter.1 he
    obtain ⟨p, hp, rfl⟩ := List.mem_map.1 hmem
    rw [← hnames, (hinner p hp).1, (hinner p hp).2]
    exact ⟨List.mem_map_of_mem hp, by simpa using hdiffers⟩
  · rintro ⟨hname, hdiffers⟩
    rw [← hnames] at hname
    obtain ⟨p, hp, rfl⟩ := List.mem_map.1 hname
    rw [(hinner p hp).1, (hinner p hp).2] at hdiffers
    have hedit : (p.1, p.2.inner fresh) ∈ edits old fresh pairs :=
      List.mem_filter.2 ⟨List.mem_map_of_mem hp, by simpa using hdiffers⟩
    exact List.mem_map_of_mem hedit

/-! ## Texts that get no shorter -/

/-- A region that is kept or filled with a text that is no shorter. -/
theorem exists_undergo_longer {fate : String → Fate} {n : String} {o c : List Char}
    {i : List (List Char)} (h : fate n = .kept ∨
      ∃ text, fate n = .filled text ∧ i.flatten.length ≤ text.length) :
    ∃ i', (∀ ps, undergo fate (.region n o i c :: ps) = .region n o i' c :: undergo fate ps) ∧
      i.flatten.length ≤ i'.flatten.length ∧ ∀ text, fate n = .filled text → text = i'.flatten := by
  rcases h with hf | ⟨text, hf, hlonger⟩
  · exact ⟨i, fun ps => undergo_kept o i c ps hf, Nat.le_refl _, by simp [hf]⟩
  · refine ⟨Text.lines text, fun ps => undergo_filled o i c ps hf, ?_, ?_⟩
    · rwa [flatten_lines]
    · simp [hf]

/-- **Filling regions with texts that are no shorter makes no text shorter**, and where the text is
as long as before, so is every region. This is how a merged text that equals the old one shows that
no region was filled with something else. -/
theorem length_undergo {fate : String → Fate} {ps : List Piece}
    (h : ∀ n o i c, Piece.region n o i c ∈ ps → fate n = .kept ∨
      ∃ text, fate n = .filled text ∧ i.flatten.length ≤ text.length) :
    (ps.flatMap Piece.text).length ≤ ((undergo fate ps).flatMap Piece.text).length ∧
      (((undergo fate ps).flatMap Piece.text).length = (ps.flatMap Piece.text).length →
        ∀ n o i c, Piece.region n o i c ∈ ps → ∀ text, fate n = .filled text →
          text.length = i.flatten.length) := by
  induction ps with
  | nil => exact ⟨Nat.le_refl _, by simp⟩
  | cons p ps ih =>
    obtain ⟨hle, hsame⟩ := ih fun n o i c hmem => h n o i c (List.mem_cons_of_mem _ hmem)
    cases p with
    | line l =>
      rw [undergo_line, List.flatMap_cons, List.flatMap_cons, List.length_append,
        List.length_append]
      refine ⟨by omega, fun hlength n o i c hmem => ?_⟩
      rcases List.mem_cons.1 hmem with hline | hmem
      · exact absurd hline (by simp)
      · exact hsame (by omega) n o i c hmem
    | region n o i c =>
      -- No region gets shorter, so that none gets longer when the whole does not.
      obtain ⟨i', hundergo, hlonger, hfilled⟩ :=
        exists_undergo_longer (h n o i c List.mem_cons_self)
      rw [hundergo, List.flatMap_cons, List.flatMap_cons, List.length_append, List.length_append]
      simp only [Piece.text_region, List.length_append]
      refine ⟨by omega, fun hlength n' o' j c' hmem text htext => ?_⟩
      rcases List.mem_cons.1 hmem with hregion | hmem
      · obtain ⟨rfl, -, rfl, -⟩ := Piece.region.inj hregion
        rw [hfilled text htext]
        omega
      · exact hsame (by omega) n' o' j c' hmem text htext

/-! ## Merging -/

section Merge

variable {old fresh : List Char} {ownedNames : List String} {path : String} {strategy : Strategy}
  {m : Merged} (h : merge old fresh ownedNames path strategy = .ok m)
include h

/-- **The regions that a merge reports are those that differ**: owned ones that hold something else
in the fresh text, and those that are cut out. The first come in the order in which they are owned,
the others in that of the file. -/
theorem mem_changed {name : String} : name ∈ m.changed ↔
    (name ∈ ownedNames ∧ innerOf old name ≠ innerOf (adaptEnding old fresh) name) ∨
      (strategy = .overwriteAuto ∧ name ∈ names old ∧ name ∉ ownedNames) := by
  obtain ⟨pairs, removed, hpairs, hremoved, -, hchanged⟩ := merge_eq_ok h
  have hcut := (mem_removed (sound_scan old) hremoved).2
  rw [hchanged, List.mem_append, mem_names_edits hpairs]
  refine or_congr_right ⟨fun hname => ?_, ?_⟩
  · obtain ⟨r, hr, rfl⟩ := List.mem_map.1 hname
    obtain ⟨hstrategy, hmem, howned⟩ := (hcut r).1 hr
    exact ⟨hstrategy, List.mem_map_of_mem hmem, howned⟩
  · rintro ⟨hstrategy, hname, howned⟩
    obtain ⟨r, hr, rfl⟩ := List.mem_map.1 hname
    exact List.mem_map_of_mem ((hcut r).2 ⟨hstrategy, hr, howned⟩)

/-- A merge that reports no region splices nothing. -/
theorem text_of_changed_eq_nil (hchanged : m.changed = []) : m.text = old := by
  obtain ⟨pairs, removed, -, -, htext, heq⟩ := merge_eq_ok h
  rw [heq, List.append_eq_nil_iff, List.map_eq_nil_iff, List.map_eq_nil_iff] at hchanged
  obtain ⟨hedits, rfl⟩ := hchanged
  rw [htext, hedits]
  simp [splice]

variable (hn : ownedNames.Nodup)
include hn

/-- A merge that leaves the text cuts no region out. -/
theorem mem_owned_of_text_eq (htext : m.text = old) (hstrategy : strategy = .overwriteAuto)
    {name : String} (hname : name ∈ names old) : name ∈ ownedNames := by
  have hnames := names_of_merge h hn
  rw [htext, hstrategy] at hnames
  have hkept := List.filter_eq_self.1 hnames.symm name hname
  simpa using hkept

/-- **A merge that leaves the text finds in the owned regions what it would put there.** Where the
text stays, each splice has put what was there before. -/
theorem innerOf_of_text_eq (htext : m.text = old) {name : String} (hname : name ∈ ownedNames) :
    innerOf old name = innerOf (adaptEnding old fresh) name := by
  -- Nothing that is put in is shorter than what it takes the place of.
  have hinner : ∀ n ∈ ownedNames, innerOf old n = innerOf (adaptEnding old fresh) n ∨
      innerOf (adaptEnding old fresh) n = '\n' :: innerOf old n := by
    intro n hmem
    have hmerged := innerOf_merged_adapted h hn hmem
    rwa [htext] at hmerged
  have hheld : ∀ n o i c, Piece.region n o i c ∈ pieces old → innerOf old n = i.flatten :=
    fun n o i c hmem => innerOf_of_mem (flatMap_text_pieces old) (regions_scan old) hmem
  obtain ⟨-, hsame⟩ := @length_undergo (fateOf strategy ownedNames (adaptEnding old fresh))
    (pieces old) fun n o i c hmem => by
      by_cases hmem' : n ∈ ownedNames
      · refine .inr ⟨_, fateOf_owned hmem' _ _, ?_⟩
        rw [← hheld n o i c hmem]
        rcases hinner n hmem' with heq | heq <;> rw [heq]
        exact Nat.le_succ _
      · cases hstrategy : strategy with
        | respectManual => exact .inl (if_neg hmem')
        | overwriteAuto =>
          have hregion : n ∈ names old := by
            rw [names_eq_pieceNames]
            exact List.mem_filterMap.2 ⟨_, hmem, rfl⟩
          exact absurd (mem_owned_of_text_eq h hn htext hstrategy hregion) hmem'
  rw [← text_merged h hn, htext, flatMap_text_pieces] at hsame
  have hregion := (mem_names_of_merge h name hname).1
  rw [names_eq_pieceNames] at hregion
  obtain ⟨p, hp, hpname⟩ := List.mem_filterMap.1 hregion
  cases p with
  | line l => exact absurd hpname (by simp [Piece.name?])
  | region n o i c =>
    obtain rfl : n = name := Option.some.inj hpname
    have hlength := hsame rfl n o i c hp _ (fateOf_owned hname _ _)
    rw [← hheld n o i c hp] at hlength
    refine (hinner n hname).resolve_right fun hlonger => ?_
    rw [hlonger, List.length_cons] at hlength
    omega

/-- **A merge leaves the text exactly when it reports no region.** One direction is that nothing is
done; the other one needs that what is done cannot cancel out. -/
theorem text_eq_iff : m.text = old ↔ m.changed = [] := by
  constructor
  · intro htext
    refine List.eq_nil_iff_forall_not_mem.2 fun name hname => ?_
    rcases (mem_changed h).1 hname with ⟨howned, hdiffers⟩ | ⟨hstrategy, hregion, howned⟩
    · exact hdiffers (innerOf_of_text_eq h hn htext howned)
    · exact howned (mem_owned_of_text_eq h hn htext hstrategy hregion)
  · exact text_of_changed_eq_nil h

end Merge

end FormScaffold.Region
