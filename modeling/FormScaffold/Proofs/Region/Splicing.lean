import FormScaffold.Proofs.Region.Scanning
import FormScaffold.Region.Merge
import Mathlib.Data.List.Nodup

/-! # Splicing pieces

Stretches of a text are replaced by their offsets, the last one first. Put in terms of pieces, each
region meets its fate and nothing else moves:

* **`Fate`** — what becomes of a region: it is kept, filled anew, or cut out;
* `Piece.undergo fate` — what is left of a piece; `undergo_kept`, `undergo_filled`, `undergo_cut` —
  what is left of pieces, step by step;
* `Fate.splice?` — the splice that the fate of a region asks for;
* **`splice_eq`** — the splices of all regions, in any order, leave the text of the pieces that
  are left. -/

namespace FormScaffold.Region

/-- What becomes of a region. -/
inductive Fate where
  /-- The region stays as it is. -/
  | kept
  /-- The inner text is replaced. -/
  | filled (inner : List Char)
  /-- The region goes, with its marker lines. -/
  | cut

/-- What is left of a piece. -/
def Piece.undergo (fate : String → Fate) : Piece → Option Piece
  | .line l => some (.line l)
  | .region name opening inner closing =>
    match fate name with
    | .kept => some (.region name opening inner closing)
    | .filled text => some (.region name opening (Text.lines text) closing)
    | .cut => none

/-- The pieces that are left. -/
def undergo (fate : String → Fate) (ps : List Piece) : List Piece :=
  ps.filterMap (Piece.undergo fate)

section Undergo

variable {fate : String → Fate}

/-- Pieces meet their fates one by one. -/
theorem undergo_cons (fate : String → Fate) (p : Piece) (ps : List Piece) :
    undergo fate (p :: ps) = (p.undergo fate).toList ++ undergo fate ps := by
  rw [undergo, List.filterMap_cons]
  cases p.undergo fate <;> rfl

/-- Lines outside of regions stay. -/
theorem undergo_line (fate : String → Fate) (l : List Char) (ps : List Piece) :
    undergo fate (.line l :: ps) = .line l :: undergo fate ps := List.filterMap_cons_some rfl

variable {n : String} (o : List Char) (i : List (List Char)) (c : List Char) (ps : List Piece)

/-- A region that is kept stays. -/
theorem undergo_kept (h : fate n = .kept) :
    undergo fate (.region n o i c :: ps) = .region n o i c :: undergo fate ps := by
  simp [undergo_cons, Piece.undergo, h]

/-- A region that is filled keeps its markers. -/
theorem undergo_filled {text : List Char} (h : fate n = .filled text) :
    undergo fate (.region n o i c :: ps) =
      .region n o (Text.lines text) c :: undergo fate ps := by
  simp [undergo_cons, Piece.undergo, h]

/-- A region that is cut goes. -/
theorem undergo_cut (h : fate n = .cut) :
    undergo fate (.region n o i c :: ps) = undergo fate ps := by
  simp [undergo_cons, Piece.undergo, h]

end Undergo

/-- The splice by which a region of a text meets its fate; none when nothing changes. -/
def Fate.splice? (text : List Char) (r : Region) : Fate → Option Splice
  | .kept => none
  | .filled inner =>
    if r.inner text = inner then none else some ⟨r.innerStart, r.innerEnd, inner⟩
  | .cut => some ⟨r.start, r.finish, []⟩

/-- The splices by which regions meet their fates. -/
def splices (fate : String → Fate) (text : List Char) (rs : List Region) : List Splice :=
  rs.filterMap fun r => (fate r.name).splice? text r

/-- The splices of regions, the first region apart. -/
theorem splices_cons (fate : String → Fate) (text : List Char) (r : Region) (rs : List Region) :
    splices fate text (r :: rs) =
      ((fate r.name).splice? text r).toList ++ splices fate text rs := by
  unfold splices
  rw [List.filterMap_cons]
  cases (fate r.name).splice? text r <;> rfl

/-! ## One splice -/

/-- A splice takes the place of what stands between its ends. -/
theorem apply_between {start stop : Nat} {a b c d : List Char} (hstart : start = a.length)
    (hstop : stop = a.length + b.length) :
    (Splice.mk start stop d).apply (a ++ (b ++ c)) = a ++ (d ++ c) := by
  subst hstart hstop
  have hdrop : (a ++ (b ++ c)).drop (a.length + b.length) = c := by
    rw [← List.drop_drop, List.drop_left, List.drop_left]
  simp only [Splice.apply, List.take_left, hdrop, List.append_assoc]

/-- The inner text of a region is what stands between its marker lines. -/
theorem inner_eq {r : Region} {a b c d : List Char} (hstart : r.innerStart = a.length + b.length)
    (hend : r.innerEnd = a.length + b.length + c.length) :
    r.inner (a ++ (b ++ (c ++ d))) = c := by
  have hassoc : a ++ (b ++ (c ++ d)) = (a ++ b) ++ (c ++ d) := by rw [List.append_assoc]
  rw [inner, hstart, hend, hassoc, ← List.length_append, List.take_length_add_append,
    List.drop_left, List.take_left]

/-! ## All splices -/

/-- The regions among pieces begin where the pieces do or later. -/
theorem start_le_of_mem_locate {offset : Nat} {ps : List Piece} {r : Region}
    (h : r ∈ locate offset ps) : offset ≤ r.start := by
  induction ps generalizing offset with
  | nil => simp at h
  | cons p ps ih =>
    cases p with
    | line l =>
      rw [locate_line] at h
      exact Nat.le_trans (Nat.le_add_right _ _) (ih h)
    | region n o i c =>
      rw [locate_region] at h
      rcases List.mem_cons.1 h with rfl | h
      · exact Nat.le_refl _
      · have := ih h
        omega

/-- Every region ends before the next one begins. -/
theorem pairwise_locate (offset : Nat) (ps : List Piece) :
    (locate offset ps).Pairwise fun r s => r.finish ≤ s.start := by
  induction ps generalizing offset with
  | nil => exact .nil
  | cons p ps ih =>
    cases p with
    | line l =>
      rw [locate_line]
      exact ih _
    | region n o i c =>
      rw [locate_region]
      exact List.pairwise_cons.2 ⟨fun s hs => start_le_of_mem_locate hs, ih _⟩

/-- The splice of one region, whatever stands behind it by then. -/
theorem foldr_splice?_region (fate : String → Fate) {n : String} {o c : List Char}
    {i : List (List Char)} {text before : List Char} {r : Region}
    (hplaces : (Piece.region n o i c).regionAt? before.length = some r)
    (hinner : r.inner text = i.flatten) (rest : List Char) :
    ((fate n).splice? text r).toList.foldr Splice.apply
        (before ++ ((Piece.region n o i c).text ++ rest)) =
      before ++ ((undergo fate [.region n o i c]).flatMap Piece.text ++ rest) := by
  obtain rfl := Option.some.inj hplaces
  have hsplit : before ++ ((Piece.region n o i c).text ++ rest) =
      (before ++ o) ++ (i.flatten ++ (c ++ rest)) := by
    simp only [Piece.text_region, List.append_assoc]
  cases hf : fate n with
  | kept =>
    rw [undergo_kept o i c [] hf]
    simp [Fate.splice?, undergo]
  | filled inner =>
    have hleft : before ++ ((undergo fate [.region n o i c]).flatMap Piece.text ++ rest) =
        (before ++ o) ++ (inner ++ (c ++ rest)) := by
      rw [undergo_filled o i c [] hf]
      simp [undergo]
    rw [hleft, hsplit, Fate.splice?, hinner]
    -- A text that is there already is not put again.
    by_cases hsame : i.flatten = inner
    · rw [if_pos hsame, hsame]
      rfl
    · rw [if_neg hsame]
      exact apply_between (by simp) (by simp)
  | cut =>
    rw [undergo_cut o i c [] hf]
    exact apply_between rfl (by simp [Nat.add_assoc])

/-- **The splices of the regions, applied from the last to the first**, leave what is left of the
pieces. From the last to the first, a splice does not move the places of those that are still to
come. -/
theorem foldr_splices (fate : String → Fate) (ps : List Piece) (before : List Char) :
    (splices fate (before ++ ps.flatMap Piece.text) (locate before.length ps)).foldr Splice.apply
        (before ++ ps.flatMap Piece.text) =
      before ++ (undergo fate ps).flatMap Piece.text := by
  induction ps generalizing before with
  | nil => rfl
  | cons p ps ih =>
    -- Splices are applied from the back, so that the offsets in front stay right.
    have happend : before ++ (p :: ps).flatMap Piece.text =
        (before ++ p.text) ++ ps.flatMap Piece.text := by
      rw [List.flatMap_cons, List.append_assoc]
    have hrest := ih (before ++ p.text)
    rw [← happend, List.length_append] at hrest
    cases p with
    | line l =>
      rw [Piece.text_line] at hrest
      rw [locate_line, hrest, undergo_line, List.flatMap_cons, Piece.text_line, List.append_assoc]
    | region n o i c =>
      have hlength : (Piece.region n o i c).text.length =
          o.length + i.flatten.length + c.length := by
        rw [Piece.text_region, List.length_append, List.length_append, Nat.add_assoc]
      have hinner : Region.inner ⟨n, before.length, before.length + o.length,
            before.length + o.length + i.flatten.length,
            before.length + o.length + i.flatten.length + c.length⟩
          (before ++ (.region n o i c :: ps).flatMap Piece.text) = i.flatten := by
        rw [List.flatMap_cons, Piece.text_region, List.append_assoc, List.append_assoc]
        exact inner_eq rfl rfl
      rw [hlength, ← Nat.add_assoc, ← Nat.add_assoc] at hrest
      rw [locate_region, splices_cons, List.foldr_append, hrest, List.append_assoc,
        foldr_splice?_region fate rfl hinner, undergo_cons fate (.region n o i c) ps,
        List.flatMap_append, undergo_cons, List.flatMap_append]
      simp [undergo]

/-! ## In any order -/

/-- A region among marked pieces has two marker lines that are not empty. -/
theorem lt_of_mem_locate {offset : Nat} {ps : List Piece} (h : ∀ p ∈ ps, p.IsMarked) {r : Region}
    (hr : r ∈ locate offset ps) :
    r.start < r.innerStart ∧ r.innerStart ≤ r.innerEnd ∧ r.innerEnd < r.finish := by
  induction ps generalizing offset with
  | nil => simp at hr
  | cons p ps ih =>
    have htail := fun q hq => h q (List.mem_cons_of_mem p hq)
    cases p with
    | line l =>
      rw [locate_line] at hr
      exact ih htail hr
    | region n o i c =>
      rw [locate_region] at hr
      rcases List.mem_cons.1 hr with rfl | hr
      · obtain ⟨ho, hc, -⟩ := h _ List.mem_cons_self
        -- Marker lines are not empty.
        have ho' : 0 < o.length :=
          List.length_pos_iff.2 (ne_nil_of_isMarkerLine (isMarkerLine_of_begins ho))
        have hc' : 0 < c.length :=
          List.length_pos_iff.2 (ne_nil_of_isMarkerLine (isMarkerLine_of_ends hc))
        simp only
        omega
      · exact ih htail hr

/-- The splices of regions stand in the order of the regions. -/
theorem pairwise_splices (fate : String → Fate) (text : List Char) {offset : Nat} {ps : List Piece}
    (h : ∀ p ∈ ps, p.IsMarked) :
    (splices fate text (locate offset ps)).Pairwise fun x y => x.start < y.start := by
  -- What a fate puts in place of a region lies within it.
  have hbounds : ∀ (f : Fate) (r : Region) (x : Splice), r ∈ locate offset ps →
      f.splice? text r = some x → r.start ≤ x.start ∧ x.start < r.finish := by
    intro f r x hr hx
    obtain ⟨h1, h2, h3⟩ := lt_of_mem_locate h hr
    cases f with
    | kept => simp [Fate.splice?] at hx
    | filled inner =>
      rw [Fate.splice?] at hx
      split at hx
      · simp at hx
      · obtain rfl := Option.some.inj hx
        simp only
        omega
    | cut =>
      obtain rfl := Option.some.inj hx
      simp only
      omega
  refine List.pairwise_filterMap.2 ((pairwise_locate offset ps).imp_of_mem ?_)
  intro r s hr hs hrs x hx y hy
  have := (hbounds _ r x hr hx).2
  have := (hbounds _ s y hs hy).1
  omega

/-- Splices that stand one after the other are applied from the last to the first, in whatever
order they are given. -/
theorem splice_eq_foldr {given sorted : List Splice} (hperm : given.Perm sorted)
    (hsorted : sorted.Pairwise fun x y => x.start < y.start) (text : List Char) :
    splice given text = sorted.foldr Splice.apply text := by
  -- No two splices start at one place, so that their order is the only one.
  have hinj : ∀ x ∈ sorted, ∀ y ∈ sorted, x.start = y.start → x = y := by
    have hnodup : (sorted.map Splice.start).Nodup :=
      List.pairwise_map.2 (hsorted.imp fun hlt => Nat.ne_of_lt hlt)
    intro x hx y hy hxy
    exact List.inj_on_of_nodup_map hnodup hx hy hxy
  have hmerge : given.mergeSort (fun a b => decide (b.start ≤ a.start)) = sorted.reverse := by
    refine @List.Perm.eq_of_pairwise _ (fun a b => b.start ≤ a.start) _ _ ?_ ?_ ?_ ?_
    · intro x y hx hy h1 h2
      have hx' : x ∈ sorted := hperm.subset (List.mem_mergeSort.1 hx)
      exact hinj x hx' y (List.mem_reverse.1 hy) (Nat.le_antisymm h2 h1)
    · refine (List.pairwise_mergeSort ?_ ?_ given).imp of_decide_eq_true
      · intro x y z hxy hyz
        rw [decide_eq_true_eq] at hxy hyz ⊢
        omega
      · intro x y
        rw [Bool.or_eq_true, decide_eq_true_eq, decide_eq_true_eq]
        omega
    · exact List.pairwise_reverse.2 (hsorted.imp Nat.le_of_lt)
    · exact (List.mergeSort_perm _ _).trans (hperm.trans (List.reverse_perm _).symm)
  rw [splice, hmerge, List.foldl_reverse]

/-- **The splices of the regions of a text, in any order, leave what is left of its pieces.** The
splices are sorted before they are applied, so that their order does not matter. -/
theorem splice_eq {fate : String → Fate} {text : List Char} {given : List Splice}
    (h : given.Perm (splices fate text (scan text).regions)) :
    splice given text = (undergo fate (pieces text)).flatMap Piece.text := by
  have hmarked : ∀ p ∈ pieces text, p.IsMarked := fun p hp => isMarked_of_mem_piecesOf hp
  rw [regions_scan] at h
  rw [splice_eq_foldr h (pairwise_splices fate text hmarked)]
  have hfold := foldr_splices fate (pieces text) []
  rw [List.nil_append, flatMap_text_pieces] at hfold
  exact hfold

end FormScaffold.Region
