import FormScaffold.Proofs.Region.Marks
import FormScaffold.Proofs.Region.Merging

/-! # Finding a region among lines

A region whose lines stand together in a text is found there, when its name has no problem. Where
lines are put on top of each other this is so too, but for a line feed that may join the break
before it.

* **`mem_names_of_within`** — a region is found where its lines stand;
* `exists_within_of_mem_names` — and the lines of a region that is found stand together;
* **`exists_within_fuse`** — what becomes of a region when breaks meet;
* **`innerOf_flatten`** — the inner text of a region among stacked lines. -/

namespace FormScaffold.Region

open Text

namespace Scan

/-- Lines are read one after the other. -/
theorem lines_append (s : Scan) (offset : Nat) (ls ms : List (List Char)) :
    s.lines offset (ls ++ ms) = (s.lines offset ls).lines (offset + ls.flatten.length) ms := by
  induction ls generalizing s offset with
  | nil => rfl
  | cons l ls ih =>
    rw [List.cons_append, lines_cons, ih, lines_cons, List.flatten_cons, List.length_append,
      Nat.add_assoc]

/-- A region that was found stays when its name has no problem in the end. -/
theorem mem_regions_of_clean {s : Scan} (hopened : s.opened = none) {r : Region}
    (hr : r ∈ s.regions) {offset : Nat} {ls : List (List Char)}
    (hclean : (s.lines offset ls).finish.problem? r.name = none) :
    r ∈ (s.lines offset ls).finish.regions := by
  have hregions := @regions_lines (fun n => ((s.lines offset ls).finish.problem? n).isNone) ls s
    offset (fun _ => rfl) (by simp [hopened])
  have hmem : r ∈ s.regions.filter fun r =>
      ((s.lines offset ls).finish.problem? r.name).isNone := by
    refine List.mem_filter.2 ⟨hr, ?_⟩
    rw [hclean]
    rfl
  have hfound := List.mem_append_left
    (locate offset (piecesOf (fun n => ((s.lines offset ls).finish.problem? n).isNone) ls)) hmem
  rw [← hregions] at hfound
  exact List.mem_of_mem_filter hfound

end Scan

/-- The lines between the marker lines of a region in a text. -/
theorem isLines_inner {text : List Char} {n : String} {o c : List Char} {i : List (List Char)}
    (hin : (Piece.region n o i c).lines <:+: Text.lines text) : IsLines i := by
  have hregion := (isLines_lines text).within hin
  exact hregion.within ⟨[o], [c], by rw [Piece.lines_region]; simp⟩

section Within

variable {n : String} {o c : List Char} {i : List (List Char)}
  (hmarked : (Piece.region n o i c).IsMarked)
include hmarked

/-- **A region is found where its lines stand**, when its name has no problem. The scanner has to
have the name open between the two marker lines, and nothing between them closes it. -/
theorem mem_names_of_within {text : List Char}
    (hin : (Piece.region n o i c).lines <:+: Text.lines text)
    (hclean : (scan text).problem? n = none) : n ∈ names text ∧ innerOf text n = i.flatten := by
  obtain ⟨front, back, hlines⟩ := hin
  have hsplit : Text.lines text = front ++ (o :: (i ++ c :: back)) := by
    rw [← hlines, Piece.lines_region]
    simp
  have hstart : scan text = ((Scan.empty.lines 0 front).lines (0 + front.flatten.length)
      (o :: (i ++ c :: back))).finish := by
    rw [scan, hsplit, Scan.lines_append]
  rw [hstart] at hclean
  -- The name begins without a problem, so that it is new and nothing is open.
  have hbegins := hclean
  rw [Scan.lines_cons] at hbegins
  have hstep := Scan.problem?_eq_none_of_finish hbegins
  rw [hmarked.1, Scan.lineAt] at hstep
  obtain ⟨hopened, hnew⟩ := Scan.opened_of_clean hstep
  have hbefore := Scan.problem?_eq_none_of_finish hclean
  have hrun := Scan.lines_region hopened hnew hbefore hmarked (0 + front.flatten.length) back
  rw [hrun] at hstart hclean
  have hfound := Scan.mem_regions_of_clean (r := ⟨n, _, _, _, _⟩) rfl
    (List.mem_append_right (Scan.empty.lines 0 front).regions List.mem_cons_self) hclean
  rw [← hstart] at hfound
  have hregion := (sound_scan text).region?_eq_some.2 ⟨hfound, rfl⟩
  refine ⟨mem_names_of_region? hregion, ?_⟩
  have htext : text = front.flatten ++ (o ++ (i.flatten ++ (c ++ back.flatten))) := by
    rw [← flatten_lines text, hsplit]
    simp
  rw [innerOf, hregion]
  show Region.inner _ text = i.flatten
  rw [htext]
  exact inner_eq (by simp) (by simp)

/-- **What becomes of a region when breaks meet**: it stands there still, but a line feed at the
start of its inner text joins a carriage return before it. The lines of a region are those that
stood there, one of them shorter by a line feed. -/
theorem exists_within_fuse {ls : List (List Char)} (hin : (Piece.region n o i c).lines <:+: ls) :
    ∃ o' i' c', (Piece.region n o' i' c').IsMarked ∧
      (Piece.region n o' i' c').lines <:+: fuse ls ∧
      (i'.flatten = i.flatten ∨
        o.getLast? = some '\r' ∧ i.head? = some ['\n'] ∧ i.flatten = '\n' :: i'.flatten) := by
  obtain ⟨front, back, rfl⟩ := hin
  obtain ⟨ho, hc, hi⟩ := hmarked
  have hone : o ≠ ['\n'] := ne_lf_of_ofLine (by simp [ho])
  have hcne : c ≠ ['\n'] := ne_lf_of_ofLine (by simp [hc])
  have hsplit : front ++ (Piece.region n o i c).lines ++ back = front ++ o :: (i ++ c :: back) := by
    rw [Piece.lines_region]
    simp
  have hfuse : fuse (front ++ (Piece.region n o i c).lines ++ back) =
      fuse front ++ (fuse (o :: i) ++ fuse (c :: back)) := by
    rw [hsplit, fuse_append front hone, ← List.cons_append, fuse_append (o :: i) hcne]
  obtain ⟨c', back', hback, hc'⟩ := exists_fuse_cons c back
  -- Whatever the first line becomes, the lines between it and the last one stay plain.
  have hfound : ∀ o' ms, fuse (o :: i) = o' :: fuse ms → Mark.ofLine o' = .begins n →
      (∀ l ∈ ms, isMarkerLine l = false) →
      (Piece.region n o' (fuse ms) c').IsMarked ∧
        (Piece.region n o' (fuse ms) c').lines <:+:
          fuse (front ++ (Piece.region n o i c).lines ++ back) := by
    intro o' ms heq ho' hms
    refine ⟨⟨ho', hc'.trans hc, ?_⟩, fuse front, back', ?_⟩
    · rw [← marks_eq_nil_iff, marks_fuse, marks_eq_nil_iff]
      exact hms
    · rw [hfuse, heq, hback, Piece.lines_region]
      simp
  rcases fuse_cons_cases o i with ⟨hcr, ms, rfl, heq⟩ | ⟨-, heq⟩
  · obtain ⟨-, hms⟩ := List.forall_mem_cons.1 hi
    obtain ⟨hmarked', hin'⟩ := hfound _ ms heq ((ofLine_concat_lf (takesLf_of_cr hcr)).trans ho) hms
    refine ⟨_, _, _, hmarked', hin', .inr ⟨hcr, rfl, ?_⟩⟩
    rw [flatten_fuse, List.flatten_cons]
    rfl
  · obtain ⟨hmarked', hin'⟩ := hfound _ i heq ho hi
    exact ⟨_, _, _, hmarked', hin', .inl (flatten_fuse i)⟩

/-- **The inner text of a region among stacked lines** is what stands between its marker lines, but
for a line feed that joins a carriage return before it. The lines are stacked when each was a line
of some text, and breaks of neighbours may have met. -/
theorem innerOf_flatten {ls : List (List Char)} (hs : IsStacked ls)
    (hin : (Piece.region n o i c).lines <:+: ls) (hclean : (scan ls.flatten).problem? n = none) :
    n ∈ names ls.flatten ∧ (innerOf ls.flatten n = i.flatten ∨
      o.getLast? = some '\r' ∧ i.head? = some ['\n'] ∧
        i.flatten = '\n' :: innerOf ls.flatten n) := by
  obtain ⟨o', i', c', hmarked', hin', hinner⟩ := exists_within_fuse hmarked hin
  rw [← lines_flatten_of_isStacked hs] at hin'
  obtain ⟨hname, hfound⟩ := mem_names_of_within hmarked' hin' hclean
  rw [hfound]
  exact ⟨hname, hinner⟩

end Within

/-- The lines of a region stand together in a text. -/
theorem exists_within_of_mem_names {text : List Char} {n : String} (h : n ∈ names text) :
    ∃ o i c, (Piece.region n o i c).IsMarked ∧
      (Piece.region n o i c).lines <:+: Text.lines text ∧ innerOf text n = i.flatten := by
  obtain ⟨p, hp, hname⟩ : ∃ p ∈ pieces text, p.name? = some n := by
    rw [names, Scan.names, regions_scan, names_locate] at h
    exact List.mem_filterMap.1 h
  have hlines : p.lines <:+: Text.lines text := by
    rw [← flatMap_lines_piecesOf (isCleanIn text) (Text.lines text)]
    exact List.infix_of_mem_flatten (List.mem_map_of_mem hp)
  have hmarked : p.IsMarked := isMarked_of_mem_piecesOf hp
  cases p with
  | line l => exact absurd hname (by simp [Piece.name?])
  | region m o i c =>
    obtain rfl : m = n := Option.some.inj hname
    refine ⟨o, i, c, hmarked, hlines, ?_⟩
    exact (mem_names_of_within hmarked hlines (problem?_of_mem_names h)).2

end FormScaffold.Region
