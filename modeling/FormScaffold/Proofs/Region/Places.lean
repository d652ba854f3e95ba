import FormScaffold.Proofs.Region.Document
import FormScaffold.Proofs.Region.Nesting

/-! # Where regions stand

What is known of the regions and problems of any text.

* **`IsPlaced text r`** — the places of a region are ends of lines, its two marker lines stand
  there, no marker line is between them, and no other one has its name;
* `exists_lines_of_mem_regions` — the lines of a text around a region that was found;
* **`scan_isPlaced`** — scanning places regions, apart from each other; the names that have a region
  and those that have a problem are the names on marker lines, each of one kind only. -/

namespace FormScaffold.Region

open Text

/-! ## Names on lines -/

/-- A line is a marker of a name just when it consists of a tag and the name. -/
theorem name?_ofLine {l : List Char} {name : String} :
    (Mark.ofLine l).name? = some name ↔ IsMarkerOf name l := by
  rw [IsMarkerOf, ← ofLine_eq_begins_iff, ← ofLine_eq_ends_iff]
  cases Mark.ofLine l <;> simp [Mark.name?]

/-- A name on a marker is one on a marker line. -/
theorem exists_mem_marks_iff {ls : List (List Char)} {name : String} :
    (∃ m ∈ marks ls, m.name? = some name) ↔ ∃ l ∈ ls, IsMarkerOf name l := by
  constructor
  · rintro ⟨m, hm, hname⟩
    obtain ⟨l, hl, rfl⟩ := List.mem_map.1 hm
    exact ⟨l, List.mem_of_mem_filter hl, name?_ofLine.1 hname⟩
  · rintro ⟨l, hl, hname⟩
    have hmarker : isMarkerLine l = true := by
      rw [← Bool.not_eq_false]
      exact fun hplain => isMarkerLine_eq_false_iff.1 hplain name hname
    exact ⟨Mark.ofLine l, List.mem_map_of_mem (List.mem_filter.2 ⟨hl, hmarker⟩),
      name?_ofLine.2 hname⟩

/-! ## Places of a text -/

/-- The characters of a text from one place to another. -/
def stretch (text : List Char) (start stop : Nat) : List Char := (text.take stop).drop start

/-- A line of the text ends in the place, or the text begins there. -/
def IsBoundary (text : List Char) (place : Nat) : Prop :=
  ∃ front back, Text.lines text = front ++ back ∧ place = front.flatten.length

/-- The line of the text that begins in the place. -/
def IsLineAt (text : List Char) (place : Nat) (l : List Char) : Prop :=
  ∃ front back, Text.lines text = front ++ l :: back ∧ place = front.flatten.length

/-- What stands between two lengths of a text. -/
theorem stretch_eq {start stop : Nat} {a b c : List Char} (hstart : start = a.length)
    (hstop : stop = a.length + b.length) : stretch (a ++ (b ++ c)) start stop = b := by
  subst hstart hstop
  rw [stretch, List.take_length_add_append, List.drop_left, List.take_left]

/-- Where a line stands among others: in front of a line, as that line, or behind it. -/
theorem append_cons_cases {α : Type} {front back before after : List α} {l m : α}
    (h : front ++ l :: back = before ++ m :: after) :
    l ∈ before ∨ front = before ∨
      ∃ between, front = before ++ m :: between ∧ between ++ l :: back = after := by
  rcases List.append_eq_append_iff.1 h with ⟨rest, rfl, hrest⟩ | ⟨rest, rfl, hrest⟩
  · cases rest with
    | nil => exact .inr (.inl (List.append_nil front).symm)
    | cons x rest =>
      obtain ⟨rfl, -⟩ := List.cons.inj hrest
      exact .inl (List.mem_append_right _ List.mem_cons_self)
  · cases rest with
    | nil => exact .inr (.inl (List.append_nil before))
    | cons x rest =>
      obtain ⟨rfl, hafter⟩ := List.cons.inj hrest
      exact .inr (.inr ⟨rest, rfl, hafter.symm⟩)

/-- **The places of a region fit the text**: they are in order and at the ends of lines, the two
marker lines of its name stand where they say, no marker is between them, and no other line of the
text is a marker of that name. -/
structure IsPlaced (text : List Char) (r : Region) : Prop where
  opens : r.start < r.innerStart
  inside : r.innerStart ≤ r.innerEnd
  closes : r.innerEnd < r.finish
  within : r.finish ≤ text.length
  boundaries : ∀ place ∈ [r.start, r.innerStart, r.innerEnd, r.finish], IsBoundary text place
  opening : IsLineAt text r.start (stretch text r.start r.innerStart) ∧
    IsTagged beginTag r.name (stretch text r.start r.innerStart)
  closing : IsLineAt text r.innerEnd (stretch text r.innerEnd r.finish) ∧
    IsTagged endTag r.name (stretch text r.innerEnd r.finish)
  inner : ∀ l ∈ Text.lines (r.inner text), ∀ name, ¬IsMarkerOf name l
  alone : ∀ place l, IsLineAt text place l → IsMarkerOf r.name l →
    place = r.start ∨ place = r.innerEnd

/-! ## The lines around a region -/

/-- A region among pieces is one of them, behind those in front of it. -/
theorem exists_piece_of_mem_locate {offset : Nat} {ps : List Piece} {r : Region}
    (h : r ∈ locate offset ps) :
    ∃ front p back, ps = front ++ p :: back ∧
      p.regionAt? (offset + (front.flatMap Piece.text).length) = some r := by
  induction ps generalizing offset with
  | nil => exact absurd h (by simp)
  | cons p ps ih =>
    rw [locate] at h
    rcases List.mem_append.1 h with h | h
    · exact ⟨[], p, ps, rfl, Option.mem_toList.1 h⟩
    · obtain ⟨front, q, back, rfl, hq⟩ := ih h
      refine ⟨p :: front, q, back, rfl, ?_⟩
      rwa [List.flatMap_cons, List.length_append, ← Nat.add_assoc]

/-- **The lines of a text around a region that was found**: its two marker lines with plain lines
between them, and lines before and after that are no markers of its name. -/
theorem exists_lines_of_mem_regions {text : List Char} {r : Region}
    (h : r ∈ (scan text).regions) :
    ∃ before o i c after, Text.lines text = before ++ o :: (i ++ c :: after) ∧
      (Piece.region r.name o i c).IsMarked ∧
      (Piece.region r.name o i c).regionAt? before.flatten.length = some r ∧
      ∀ l ∈ before ++ after, ¬IsMarkerOf r.name l := by
  have hlocate : r ∈ locate 0 (pieces text) := regions_scan text ▸ h
  obtain ⟨front, p, back, hpieces, hp⟩ := exists_piece_of_mem_locate hlocate
  have hmem : p ∈ piecesOf (isCleanIn text) (Text.lines text) := by
    rw [← pieces, hpieces]
    exact List.mem_append_right _ List.mem_cons_self
  have hmarked : p.IsMarked := isMarked_of_mem_piecesOf hmem
  cases p with
  | line l => exact absurd hp (by simp [Piece.regionAt?])
  | region n o i c =>
    obtain rfl : n = r.name := congrArg Region.name (Option.some.inj hp)
    rw [Nat.zero_add, flatMap_text] at hp
    have hlines : Text.lines text =
        front.flatMap Piece.lines ++ o :: (i ++ c :: back.flatMap Piece.lines) := by
      rw [← flatMap_lines_piecesOf (isCleanIn text) (Text.lines text), ← pieces, hpieces,
        List.flatMap_append, List.flatMap_cons, Piece.lines_region]
      simp
    refine ⟨_, o, i, c, _, hlines, hmarked, hp, fun l hl hname => ?_⟩
    -- Another marker of the name would give it a problem.
    obtain ⟨ho, hc, hi⟩ := hmarked
    have hfound : r.name ∈ names text := List.mem_map_of_mem h
    rw [mem_names_iff_read, hlines, marks_append, marks_cons_of_marker (isMarkerLine_of_begins ho),
      ho, marks_append, marks_eq_nil_iff.2 hi, List.nil_append,
      marks_cons_of_marker (isMarkerLine_of_ends hc), hc] at hfound
    have hothers := (Scan.of_mem_names hfound).1
    rw [← marks_append] at hothers
    obtain ⟨m, hm, hmark⟩ := exists_mem_marks_iff.2 ⟨l, hl, hname⟩
    exact hothers m hm hmark

section Around

variable {text : List Char} {before i after : List (List Char)} {o c : List Char}
  (hlines : Text.lines text = before ++ o :: (i ++ c :: after))
include hlines

/-- The text around a region, taken apart. -/
theorem eq_of_lines_around :
    text = before.flatten ++ (o ++ (i.flatten ++ (c ++ after.flatten))) := by
  rw [← flatten_lines text, hlines]
  simp

/-- The opening marker stands where the region begins. -/
theorem stretch_opening :
    stretch text before.flatten.length (before.flatten.length + o.length) = o := by
  rw [eq_of_lines_around hlines]
  exact stretch_eq rfl rfl

/-- The inner text stands between the markers. -/
theorem stretch_inner :
    stretch text (before.flatten.length + o.length)
      (before.flatten.length + o.length + i.flatten.length) = i.flatten := by
  rw [eq_of_lines_around hlines, ← List.append_assoc]
  exact stretch_eq (by simp) (by simp)

/-- The closing marker stands where the region ends. -/
theorem stretch_closing :
    stretch text (before.flatten.length + o.length + i.flatten.length)
      (before.flatten.length + o.length + i.flatten.length + c.length) = c := by
  rw [eq_of_lines_around hlines, ← List.append_assoc, ← List.append_assoc]
  exact stretch_eq (by simp [Nat.add_assoc]) (by simp [Nat.add_assoc])

/-- Each place of a region is the length of the lines in front of it. -/
theorem isBoundary_around :
    ∀ place ∈ [before.flatten.length, before.flatten.length + o.length,
      before.flatten.length + o.length + i.flatten.length,
      before.flatten.length + o.length + i.flatten.length + c.length], IsBoundary text place := by
  have hplace : ∀ front back, front ++ back = before ++ o :: (i ++ c :: after) →
      IsBoundary text front.flatten.length :=
    fun front back heq => ⟨front, back, hlines.trans heq.symm, rfl⟩
  intro place hmem
  simp only [List.mem_cons, List.not_mem_nil, or_false] at hmem
  rcases hmem with rfl | rfl | rfl | rfl
  · exact hplace before _ rfl
  · simpa using hplace (before ++ [o]) (i ++ c :: after) (by simp)
  · simpa [Nat.add_assoc] using hplace (before ++ o :: i) (c :: after) (by simp)
  · simpa [Nat.add_assoc] using hplace (before ++ o :: (i ++ [c])) after (by simp)

/-- The line behind the inner ones is where it was found. -/
theorem isLineAt_closing :
    IsLineAt text (before.flatten.length + o.length + i.flatten.length) c := by
  refine ⟨before ++ o :: i, after, ?_, ?_⟩
  · rw [hlines]
    simp
  · simp [Nat.add_assoc]

/-- A marker of a name that no line outside has, and that no inner line can have, is one of the two
lines of the region. -/
theorem place_of_isMarkerOf {name : String} (hi : ∀ l ∈ i, isMarkerLine l = false)
    (hothers : ∀ l ∈ before ++ after, ¬IsMarkerOf name l) {place : Nat} {l : List Char}
    (h : IsLineAt text place l) (hname : IsMarkerOf name l) :
    place = before.flatten.length ∨
      place = before.flatten.length + o.length + i.flatten.length := by
  obtain ⟨front, back, hat, rfl⟩ := h
  obtain ⟨hbefore, hafter⟩ := List.forall_mem_append.1 hothers
  rcases append_cons_cases (hat.symm.trans hlines) with hl | rfl | ⟨rest, rfl, hrest⟩
  · exact absurd hname (hbefore l hl)
  · exact .inl rfl
  · rcases append_cons_cases hrest with hl | rfl | ⟨rest', -, rfl⟩
    · exact absurd hname (isMarkerLine_eq_false_iff.1 (hi l hl) name)
    · exact .inr (by simp [Nat.add_assoc])
    · exact absurd hname (hafter l (List.mem_append_right _ List.mem_cons_self))

end Around

/-- **A region that was found is placed.** All that is claimed of a region is read off the lines
around it. -/
theorem isPlaced_of_mem {text : List Char} {r : Region} (h : r ∈ (scan text).regions) :
    IsPlaced text r := by
  obtain ⟨before, o, i, c, after, hlines, ⟨ho, hc, hi⟩, hplaces, hothers⟩ :=
    exists_lines_of_mem_regions h
  obtain ⟨name, start, innerStart, innerEnd, finish⟩ := r
  obtain ⟨rfl, rfl, rfl, rfl⟩ := (Region.mk.inj (Option.some.inj hplaces)).2
  -- Marker lines are not empty, so that the places differ.
  have hopening : 0 < o.length :=
    List.length_pos_iff.2 (ne_nil_of_isMarkerLine (isMarkerLine_of_begins ho))
  have hclosing : 0 < c.length :=
    List.length_pos_iff.2 (ne_nil_of_isMarkerLine (isMarkerLine_of_ends hc))
  have hinside : IsLines i := isLines_inner (n := name) (o := o) (c := c)
    ⟨before, after, by rw [hlines, Piece.lines_region]; simp⟩
  exact {
    opens := Nat.lt_add_of_pos_right hopening
    inside := Nat.le_add_right _ _
    closes := Nat.lt_add_of_pos_right hclosing
    within := by
      rw [eq_of_lines_around hlines]
      simp only [List.length_append]
      omega
    boundaries := isBoundary_around hlines
    opening := by
      rw [stretch_opening hlines]
      exact ⟨⟨before, _, hlines, rfl⟩, ofLine_eq_begins_iff.1 ho⟩
    closing := by
      rw [stretch_closing hlines]
      exact ⟨isLineAt_closing hlines, ofLine_eq_ends_iff.1 hc⟩
    inner := by
      show ∀ l ∈ Text.lines (stretch text _ _), ∀ name, ¬IsMarkerOf name l
      rw [stretch_inner hlines, lines_flatten hinside]
      exact fun l hl => isMarkerLine_eq_false_iff.1 (hi l hl)
    alone := fun place l => place_of_isMarkerOf hlines hi hothers }

/-! ## Names -/

/-- The names that have a problem. -/
def problemNames (text : List Char) : List String := (scan text).problems.map (·.1)

/-- The names with problems are those that the scan has a problem of. -/
theorem mem_problemNames_iff {text : List Char} {name : String} :
    name ∈ problemNames text ↔ ((scan text).problem? name).isSome = true := by
  rw [problemNames, Scan.problem?, Option.isSome_map, List.find?_isSome, List.mem_map]
  simp

/-- A name with a region has no problem. -/
theorem notMem_problemNames {text : List Char} {name : String} (h : name ∈ names text) :
    name ∉ problemNames text := by
  rw [mem_problemNames_iff, (sound_scan text).problem?_of_mem_names h]
  decide

/-- **The names on marker lines are those with a region or a problem.** A marker line never goes
unnoticed. -/
theorem exists_isMarkerOf_iff {text : List Char} {name : String} :
    (∃ l ∈ Text.lines text, IsMarkerOf name l) ↔
      name ∈ names text ∨ name ∈ problemNames text := by
  rw [← exists_mem_marks_iff, mem_problemNames_iff, mem_names_iff_read, problem?_scan]
  constructor
  · intro h
    exact (Scan.accounts_read_of_mem (s := Scan.empty) h).finish.symm
  · intro h
    by_contra hnone
    have hothers : ∀ m ∈ marks (Text.lines text), m.name? ≠ some name :=
      fun m hm hname => hnone ⟨m, hm, hname⟩
    -- Marks of other names leave a name as it is before the first of them.
    have hleaves := ((Scan.Leaves.refl (n := name) (s := Scan.empty)
      (by simp [Scan.empty])).read hothers).finish
    rw [hleaves.names, hleaves.problem] at h
    exact absurd h (by simp [Scan.empty, Scan.names, Scan.problem?])

/-- **What is found in a text.** Every region is placed, every region ends before the next begins,
and each has a name of its own. No name has both a region and a problem, and the names that have one
of them are the names on marker lines. -/
theorem scan_isPlaced (text : List Char) :
    (∀ r ∈ (scan text).regions, IsPlaced text r) ∧
    (scan text).regions.Pairwise (fun r s => r.finish ≤ s.start) ∧
    (names text).Nodup ∧ (∀ name ∈ names text, name ∉ problemNames text) ∧
    ∀ name, name ∈ names text ∨ name ∈ problemNames text ↔
      ∃ l ∈ Text.lines text, IsMarkerOf name l := by
  refine ⟨fun r hr => isPlaced_of_mem hr, ?_, (sound_scan text).nodup,
    fun name h => notMem_problemNames h, fun name => exists_isMarkerOf_iff.symm⟩
  rw [regions_scan]
  exact pairwise_locate 0 _

end FormScaffold.Region
