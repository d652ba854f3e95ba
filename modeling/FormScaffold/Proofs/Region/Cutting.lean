import FormScaffold.Proofs.Region.Finding
import FormScaffold.Proofs.Region.Remerging
import Mathlib.Data.List.Flatten

/-! # Cutting regions out

Regions of a text without problems are cut out. What stood before such a region and what stood after
it meet, and a carriage return may become one break with a line feed.

* `isProper_of_problems` — without problems, the lines outside of the regions are no markers;
* `marks_of_isProper` — then the regions alone mark something, one after the other;
* **`keep`** — the pieces that are left when regions are cut out;
* **`scan_cut`** — what is left has no problems, and the regions that are left as they were. -/

namespace FormScaffold.Region

open Text

/-! ## Texts without problems -/

/-- Where no name has a problem, the lines outside of the regions are no markers. -/
theorem Scan.isProper_piecesOf {ls : List (List Char)} {s : Scan} {offset : Nat}
    (hopened : s.opened = none) (h : ∀ n, (s.lines offset ls).finish.problem? n = none) :
    ∀ p ∈ piecesOf (fun _ => true) ls, p.IsProper := by
  induction ls using piecesOf.induct (fun _ => true) generalizing s offset with
  | case1 => simp
  | case2 l ls p rest hp ih =>
    obtain ⟨name, inner, closing, rfl, rfl, hinner, hl, hc, -⟩ := takeRegion?_eq_some.1 hp
    have hclean : s.problem? name = none := problem?_eq_none_of_finish (h name)
    have hnew : name ∉ s.begun := by
      have hbegins := h name
      rw [lines_cons, hl, lineAt] at hbegins
      exact (opened_of_clean (problem?_eq_none_of_finish hbegins)).2
    have hmarked : (Piece.region name l inner closing).IsMarked := ⟨hl, hc, hinner⟩
    simp only [lines_region hopened hnew hclean hmarked offset rest] at h
    rw [piecesOf_region hp, List.forall_mem_cons]
    exact ⟨hmarked, ih rfl h⟩
  | case3 l ls hl ih =>
    rw [piecesOf_line hl, List.forall_mem_cons]
    cases hmark : Mark.ofLine l with
    | plain =>
      have hrest : ∀ n, (s.lines (offset + l.length) ls).finish.problem? n = none := by
        intro n
        have hn := h n
        rwa [lines_cons, hmark] at hn
      exact ⟨isMarkerLine_eq_false.2 hmark, ih hopened hrest⟩
    | begins n =>
      have hn := h n
      rw [lines_cons, hmark, lineAt] at hn
      have hnew := (opened_of_clean (problem?_eq_none_of_finish hn)).2
      -- The region that is opened here is closed, so that it would have been taken.
      rw [beginAt_of_fresh hopened hnew] at hn
      obtain ⟨closing, hfind, hends⟩ :=
        find?_of_clean (o := ⟨n, offset, offset + l.length⟩) rfl hn
      have hname := takeRegion?_eq_none_iff.1 hl closing hfind
      rw [regionName?_eq_some.2 ⟨hmark, hends, rfl⟩] at hname
      exact absurd hname (by simp)
    | ends n =>
      have hn := h n
      rw [lines_cons, hmark, lineAt, endAt_of_closed hopened] at hn
      have hsome := isSome_problem?_flaw_self s n .unopened
      rw [problem?_eq_none_of_finish hn] at hsome
      exact absurd hsome (by decide)

/-- A text without problems has clean names only. -/
theorem isCleanIn_of_problems {text : List Char} (h : (scan text).problems = []) :
    isCleanIn text = fun _ => true := by
  funext name
  rw [isCleanIn, Scan.problem?, h]
  rfl

/-- **The pieces of a text without problems are proper.** Every marker line belongs to a region
then, as a marker on its own would have made a problem. -/
theorem isProper_of_problems {text : List Char} (h : (scan text).problems = []) :
    ∀ p ∈ pieces text, p.IsProper := by
  have hclean : ∀ n, (scan text).problem? n = none := by
    intro n
    rw [Scan.problem?, h]
    rfl
  rw [pieces, isCleanIn_of_problems h]
  exact Scan.isProper_piecesOf (s := Scan.empty) rfl hclean

/-- Proper pieces mark their regions, one after the other. -/
theorem marks_of_isProper {ps : List Piece} (h : ∀ p ∈ ps, p.IsProper) :
    marks (ps.flatMap Piece.lines) = pairMarks (pieceNames ps) := by
  induction ps with
  | nil => rfl
  | cons p ps ih =>
    obtain ⟨hp, hps⟩ := List.forall_mem_cons.1 h
    rw [List.flatMap_cons, marks_append, ih hps]
    cases p with
    | line l =>
      rw [Piece.lines_line, marks_cons_of_plain hp, marks_nil, pieceNames_line]
      rfl
    | region n o i c =>
      obtain ⟨ho, hc, hi⟩ := hp
      have hregion : marks (Piece.region n o i c).lines = [.begins n, .ends n] := by
        rw [Piece.lines_region, marks_cons_of_marker (isMarkerLine_of_begins ho), marks_append,
          marks_eq_nil_iff.2 hi, marks_cons_of_marker (isMarkerLine_of_ends hc), ho, hc]
        rfl
      rw [hregion, pieceNames_region]
      rfl

/-! ## What is left -/

/-- The pieces that are left when regions are cut out. -/
def keep (isKept : String → Bool) (ps : List Piece) : List Piece :=
  ps.filter fun p => p.name?.all isKept

section Keep

variable {isKept : String → Bool}

/-- Lines outside of regions are kept. -/
theorem keep_line (isKept : String → Bool) (l : List Char) (ps : List Piece) :
    keep isKept (.line l :: ps) = .line l :: keep isKept ps := List.filter_cons_of_pos rfl

/-- A region whose name is kept stays. -/
theorem keep_region_of_pos {n : String} (h : isKept n = true) (o : List Char)
    (i : List (List Char)) (c : List Char) (ps : List Piece) :
    keep isKept (.region n o i c :: ps) = .region n o i c :: keep isKept ps :=
  List.filter_cons_of_pos h

/-- A region whose name is not kept goes. -/
theorem keep_region_of_neg {n : String} (h : ¬isKept n = true) (o : List Char)
    (i : List (List Char)) (c : List Char) (ps : List Piece) :
    keep isKept (.region n o i c :: ps) = keep isKept ps := List.filter_cons_of_neg h

/-- The names that are left are those that are kept. -/
theorem pieceNames_keep (isKept : String → Bool) (ps : List Piece) :
    pieceNames (keep isKept ps) = (pieceNames ps).filter isKept := by
  induction ps with
  | nil => rfl
  | cons p ps ih =>
    cases p with
    | line l => rw [keep_line, pieceNames_line, pieceNames_line, ih]
    | region n o i c =>
      by_cases hn : isKept n = true
      · rw [keep_region_of_pos hn, pieceNames_region, pieceNames_region, ih,
          List.filter_cons_of_pos hn]
      · rw [keep_region_of_neg hn, pieceNames_region, ih, List.filter_cons_of_neg hn]

/-- Nothing is cut out where all regions are kept. -/
theorem keep_eq_self {ps : List Piece} (h : ∀ n ∈ pieceNames ps, isKept n = true) :
    keep isKept ps = ps := by
  refine List.filter_eq_self.2 fun p hp => ?_
  cases hname : p.name? with
  | none => rfl
  | some n => exact h n (List.mem_filterMap.2 ⟨p, hp, hname⟩)

end Keep

/-- **A text without problems has none when regions are cut out**, and the regions that are left
have their inner texts. Where a region is cut out between a carriage return and a line feed, these
meet and become one break; this is why the inner texts are compared up to such a line feed. -/
theorem scan_cut {text : List Char} (h : (scan text).problems = []) (isKept : String → Bool) :
    (scan ((keep isKept (pieces text)).flatMap Piece.text)).problems = [] ∧
      names ((keep isKept (pieces text)).flatMap Piece.text) = (names text).filter isKept ∧
      ∀ n o i c, Piece.region n o i c ∈ pieces text → isKept n = true →
        innerOf ((keep isKept (pieces text)).flatMap Piece.text) n = i.flatten := by
  have hlines : (pieces text).flatMap Piece.lines = Text.lines text := flatMap_lines_piecesOf _ _
  have hkept : (keep isKept (pieces text)).Sublist (pieces text) := List.filter_sublist
  have hproper : ∀ p ∈ keep isKept (pieces text), p.IsProper := fun p hp =>
    isProper_of_problems h p (hkept.subset hp)
  have hstacked : IsStacked ((keep isKept (pieces text)).flatMap Piece.lines) := by
    refine (isLines_lines text).isStacked.sublist ?_
    rw [← hlines]
    exact hkept.flatMap Piece.lines
  have hmarks : marks (Text.lines ((keep isKept (pieces text)).flatMap Piece.text)) =
      pairMarks ((names text).filter isKept) := by
    rw [flatMap_text, lines_flatten_of_isStacked hstacked, marks_fuse, marks_of_isProper hproper,
      pieceNames_keep, ← names_eq_pieceNames]
  obtain ⟨hproblems, hnames⟩ := scan_of_marks hmarks ((sound_scan text).nodup.filter _)
  refine ⟨hproblems, hnames, fun n o i c hmem hn => ?_⟩
  have hleft : Piece.region n o i c ∈ keep isKept (pieces text) := List.mem_filter.2 ⟨hmem, hn⟩
  have hclean : (scan ((keep isKept (pieces text)).flatMap Piece.lines).flatten).problem? n =
      none := by
    rw [← flatMap_text, Scan.problem?, hproblems]
    rfl
  obtain ⟨-, hinner | ⟨hcr, hhead, -⟩⟩ := innerOf_flatten (hproper _ hleft) hstacked
    (List.infix_of_mem_flatten (List.mem_map_of_mem hleft)) hclean
  · rw [flatMap_text, hinner]
  · -- In the text itself the line feed would have been part of the marker line.
    obtain ⟨front, back, hsplit⟩ : (Piece.region n o i c).lines <:+: Text.lines text := by
      rw [← hlines]
      exact List.infix_of_mem_flatten (List.mem_map_of_mem hmem)
    obtain ⟨i', rfl⟩ := List.head?_eq_some_iff.1 hhead
    have hchain := isLines_lines text
    rw [← hsplit, List.append_assoc] at hchain
    obtain ⟨-, hregion, -⟩ := isLines_append.1 hchain
    obtain ⟨-, hnext, -⟩ := isLines_cons.1 hregion
    exact absurd ⟨hcr, rfl⟩ (hnext ['\n'] rfl).2

end FormScaffold.Region
