import FormScaffold.Proofs.Text.Lines
import FormScaffold.Region.Scan
import Mathlib.Data.List.TakeWhile

/-! # A text as a list of pieces

Scanning a text gives the places of its regions. This file gives the text in pieces instead: lines
that stand outside of all regions, and regions with their two marker lines.

* **`Piece`**, with its lines and its text;
* **`piecesOf isClean ls`** — the pieces of lines, where a region is a line that begins a clean
  name, plain lines, and a line that ends the name;
* `locate offset ps` — the places of the regions among pieces;
* `flatMap_lines_piecesOf` — no line is lost;
* `isMarked_of_mem_piecesOf` — a region stands between its two marker lines, with none inside. -/

namespace FormScaffold.Region

/-! ## Pieces -/

/-- A stretch of a text. -/
inductive Piece where
  /-- A line outside of all regions. -/
  | line (line : List Char)
  /-- A region with its marker lines. -/
  | region (name : String) (opening : List Char) (inner : List (List Char)) (closing : List Char)

namespace Piece

/-- The lines of a piece. -/
def lines : Piece → List (List Char)
  | line l => [l]
  | region _ opening inner closing => opening :: (inner ++ [closing])

/-- The text of a piece. -/
def text (p : Piece) : List Char := p.lines.flatten

/-- The name of a region. -/
def name? : Piece → Option String
  | line _ => none
  | region name .. => some name

/-- The region that a piece is, when it begins at an offset. -/
def regionAt? (offset : Nat) : Piece → Option Region
  | line _ => none
  | region name opening inner closing =>
    some ⟨name, offset, offset + opening.length, offset + opening.length + inner.flatten.length,
      offset + opening.length + inner.flatten.length + closing.length⟩

/-- A line outside of regions is a piece of one line. -/
@[simp] theorem lines_line (l : List Char) : (line l).lines = [l] := rfl

/-- A region is its marker lines and what stands between them. -/
@[simp] theorem lines_region (name : String) (o : List Char) (i : List (List Char))
    (c : List Char) :
    (region name o i c).lines = o :: (i ++ [c]) := rfl

/-- The text of a line outside of regions is the line. -/
@[simp] theorem text_line (l : List Char) : (line l).text = l := by simp [text]

/-- The text of a region, markers included. -/
@[simp] theorem text_region (name : String) (o : List Char) (i : List (List Char)) (c : List Char) :
    (region name o i c).text = o ++ (i.flatten ++ c) := by
  simp [text]

end Piece

/-- The text of pieces is that of their lines. -/
theorem flatMap_text (ps : List Piece) :
    ps.flatMap Piece.text = (ps.flatMap Piece.lines).flatten := by
  induction ps with
  | nil => rfl
  | cons p ps ih => rw [List.flatMap_cons, List.flatMap_cons, List.flatten_append, ← ih, Piece.text]

/-- The regions among pieces the first of which begins at an offset. -/
def locate (offset : Nat) : List Piece → List Region
  | [] => []
  | p :: ps => (p.regionAt? offset).toList ++ locate (offset + p.text.length) ps

/-- There are no regions in nothing. -/
@[simp] theorem locate_nil (offset : Nat) : locate offset [] = [] := rfl

/-- A line outside of regions moves the regions behind it by its length. -/
@[simp] theorem locate_line (offset : Nat) (l : List Char) (ps : List Piece) :
    locate offset (.line l :: ps) = locate (offset + l.length) ps := by
  simp [locate, Piece.regionAt?]

/-- The first region starts at the offset, and those behind it start after its closing marker. -/
@[simp] theorem locate_region (offset : Nat) (n : String) (o : List Char) (i : List (List Char))
    (c : List Char) (ps : List Piece) :
    locate offset (.region n o i c :: ps) =
      ⟨n, offset, offset + o.length, offset + o.length + i.flatten.length,
        offset + o.length + i.flatten.length + c.length⟩ ::
      locate (offset + o.length + i.flatten.length + c.length) ps := by
  simp [locate, Piece.regionAt?, Nat.add_assoc]

/-- Regions are located in the order of the pieces, under their names. -/
theorem names_locate (offset : Nat) (ps : List Piece) :
    (locate offset ps).map (·.name) = ps.filterMap Piece.name? := by
  induction ps generalizing offset with
  | nil => rfl
  | cons p ps ih =>
    cases p with
    | line l => rw [locate_line, ih, List.filterMap_cons_none rfl]
    | region n o i c =>
      have hn : (Piece.region n o i c).name? = some n := rfl
      rw [locate_region, List.map_cons, ih, List.filterMap_cons_some hn]

/-! ## Cutting lines into pieces -/

/-- The name of the region between two marker lines, when its name is clean. -/
def regionName? (isClean : String → Bool) (opening closing : List Char) : Option String :=
  match Mark.ofLine opening with
  | .begins name => if Mark.ofLine closing == .ends name && isClean name then some name else none
  | _ => none

/-- The region that begins with the first line of several, and the lines after it. -/
def takeRegion? (isClean : String → Bool) (opening : List Char) (ls : List (List Char)) :
    Option (Piece × List (List Char)) :=
  match ls.dropWhile (!isMarkerLine ·) with
  | [] => none
  | closing :: rest =>
    (regionName? isClean opening closing).map fun name =>
      (.region name opening (ls.takeWhile (!isMarkerLine ·)) closing, rest)

/-- A line is plain when it is no marker line. -/
theorem isMarkerLine_eq_false {l : List Char} :
    isMarkerLine l = false ↔ Mark.ofLine l = .plain := by
  simp [isMarkerLine]

/-- A line that ends a name is a marker line. -/
theorem isMarkerLine_of_ends {l : List Char} {name : String} (h : Mark.ofLine l = .ends name) :
    isMarkerLine l = true := by
  simp [isMarkerLine, h]

/-- A line that begins a name is a marker line. -/
theorem isMarkerLine_of_begins {l : List Char} {name : String} (h : Mark.ofLine l = .begins name) :
    isMarkerLine l = true := by
  simp [isMarkerLine, h]

/-- A marker line is not empty. -/
theorem ne_nil_of_isMarkerLine {l : List Char} (h : isMarkerLine l = true) : l ≠ [] := by
  rintro rfl
  exact absurd h (by decide)

/-- The two markers of a region carry its name, which is clean. -/
theorem regionName?_eq_some {isClean : String → Bool} {opening closing : List Char}
    {name : String} :
    regionName? isClean opening closing = some name ↔
      Mark.ofLine opening = .begins name ∧ Mark.ofLine closing = .ends name ∧
        isClean name = true := by
  unfold regionName?
  cases h : Mark.ofLine opening with
  | begins n =>
    simp only [Bool.and_eq_true, beq_iff_eq, Option.ite_none_right_eq_some, Option.some.injEq,
      Mark.begins.injEq]
    constructor
    · rintro ⟨⟨h1, h2⟩, rfl⟩
      exact ⟨rfl, h1, h2⟩
    · rintro ⟨rfl, h1, h2⟩
      exact ⟨⟨h1, h2⟩, rfl⟩
  | ends n => simp
  | plain => simp

/-- **What it takes for a region to begin with a line**: plain lines and then the line that ends its
clean name. So the region ends at the first marker line behind its begin, whatever that is. -/
theorem takeRegion?_eq_some {isClean : String → Bool} {opening : List Char}
    {ls : List (List Char)} {p : Piece} {rest : List (List Char)} :
    takeRegion? isClean opening ls = some (p, rest) ↔
      ∃ name inner closing, p = .region name opening inner closing ∧
        ls = inner ++ closing :: rest ∧ (∀ l ∈ inner, isMarkerLine l = false) ∧
        Mark.ofLine opening = .begins name ∧ Mark.ofLine closing = .ends name ∧
        isClean name = true := by
  unfold takeRegion?
  constructor
  · intro h
    split at h
    · exact absurd h (by simp)
    · rename_i closing rest' hdrop
      obtain ⟨name, hname, heq⟩ := Option.map_eq_some_iff.1 h
      obtain ⟨rfl, rfl⟩ := Prod.mk.inj heq
      obtain ⟨h1, h2, h3⟩ := regionName?_eq_some.1 hname
      refine ⟨name, _, closing, rfl, ?_, ?_, h1, h2, h3⟩
      · rw [← hdrop, List.takeWhile_append_dropWhile]
      · intro l hl
        simpa using List.mem_takeWhile_imp hl
  · rintro ⟨name, inner, closing, rfl, rfl, hinner, h1, h2, h3⟩
    -- The closing line is the first marker line.
    have hclosing : (!isMarkerLine closing) = false := by simp [isMarkerLine_of_ends h2]
    have htake : (inner ++ closing :: rest).takeWhile (!isMarkerLine ·) = inner := by
      rw [List.takeWhile_append_of_pos (by simpa using hinner), List.takeWhile_cons, hclosing]
      simp
    have hdrop : (inner ++ closing :: rest).dropWhile (!isMarkerLine ·) = closing :: rest := by
      rw [List.dropWhile_append_of_pos (by simpa using hinner), List.dropWhile_cons, hclosing]
      simp
    rw [hdrop, htake]
    simp only [regionName?_eq_some.2 ⟨h1, h2, h3⟩, Option.map_some]

/-- Whether a region begins with a line depends on the first marker line after it. -/
theorem takeRegion?_eq_none_iff {isClean : String → Bool} {opening : List Char}
    {ls : List (List Char)} :
    takeRegion? isClean opening ls = none ↔
      ∀ closing ∈ ls.find? isMarkerLine, regionName? isClean opening closing = none := by
  rw [List.find?_eq_head?_dropWhile_not, takeRegion?]
  cases ls.dropWhile (!isMarkerLine ·) with
  | nil => simp
  | cons closing rest => simp

/-- The pieces of lines: a region is a line that begins a clean name, plain lines, and a line that
ends the name. -/
def piecesOf (isClean : String → Bool) : List (List Char) → List Piece
  | [] => []
  | l :: ls =>
    match _h : takeRegion? isClean l ls with
    | some (p, rest) => p :: piecesOf isClean rest
    | none => .line l :: piecesOf isClean ls
  termination_by ls => ls.length
  decreasing_by
    · obtain ⟨_, inner, closing, -, rfl, -⟩ := takeRegion?_eq_some.1 _h
      simp only [List.length_cons, List.length_append]
      omega
    · simp

/-- There are no pieces in nothing. -/
@[simp] theorem piecesOf_nil (isClean : String → Bool) : piecesOf isClean [] = [] := by
  rw [piecesOf]

/-- Where a region begins it is the first piece, and the lines behind it are taken apart next. -/
theorem piecesOf_region {isClean : String → Bool} {l : List Char} {ls : List (List Char)}
    {p : Piece} {rest : List (List Char)} (h : takeRegion? isClean l ls = some (p, rest)) :
    piecesOf isClean (l :: ls) = p :: piecesOf isClean rest := by
  rw [piecesOf]
  split
  · rename_i h'
    rw [h] at h'
    obtain ⟨rfl, rfl⟩ := Prod.mk.inj (Option.some.inj h')
    rfl
  · rename_i h'
    rw [h] at h'
    simp at h'

/-- Where no region begins the line is the first piece. -/
theorem piecesOf_line {isClean : String → Bool} {l : List Char} {ls : List (List Char)}
    (h : takeRegion? isClean l ls = none) :
    piecesOf isClean (l :: ls) = .line l :: piecesOf isClean ls := by
  rw [piecesOf]
  split
  · rename_i h'
    rw [h] at h'
    simp at h'
  · rfl

/-- No region begins with a line that begins no clean name. -/
theorem takeRegion?_eq_none {isClean : String → Bool} {l : List Char} (ls : List (List Char))
    (h : ∀ name, Mark.ofLine l = .begins name → isClean name = false) :
    takeRegion? isClean l ls = none := by
  cases ht : takeRegion? isClean l ls with
  | none => rfl
  | some r =>
    obtain ⟨p, rest⟩ := r
    obtain ⟨name, _, _, -, -, -, hl, -, hclean⟩ := takeRegion?_eq_some.1 ht
    rw [h name hl] at hclean
    exact absurd hclean (by decide)

/-- **No line is lost or moved.** Pieces are the lines, put together where a region stands. -/
theorem flatMap_lines_piecesOf (isClean : String → Bool) (ls : List (List Char)) :
    (piecesOf isClean ls).flatMap Piece.lines = ls := by
  induction ls using piecesOf.induct isClean with
  | case1 => simp
  | case2 l ls p rest h ih =>
    obtain ⟨name, inner, closing, rfl, rfl, -⟩ := takeRegion?_eq_some.1 h
    rw [piecesOf_region h, List.flatMap_cons, ih, Piece.lines_region]
    simp
  | case3 l ls h ih =>
    rw [piecesOf_line h, List.flatMap_cons, ih, Piece.lines_line, List.singleton_append]

/-- What is known of a region among pieces: its first line begins its name, its last line ends it,
and no line between them is a marker line. -/
def Piece.IsMarked : Piece → Prop
  | .line _ => True
  | .region name opening inner closing =>
    Mark.ofLine opening = .begins name ∧ Mark.ofLine closing = .ends name ∧
      ∀ l ∈ inner, isMarkerLine l = false

/-- Every region among the pieces of lines has its markers, and no others in it. -/
theorem isMarked_of_mem_piecesOf {isClean : String → Bool} {ls : List (List Char)} {p : Piece}
    (h : p ∈ piecesOf isClean ls) : p.IsMarked := by
  induction ls using piecesOf.induct isClean with
  | case1 => simp at h
  | case2 l ls q rest hq ih =>
    rw [piecesOf_region hq] at h
    rcases List.mem_cons.1 h with rfl | h
    · obtain ⟨name, inner, closing, rfl, -, h1, h2, h3, -⟩ := takeRegion?_eq_some.1 hq
      exact ⟨h2, h3, h1⟩
    · exact ih h
  | case3 l ls hq ih =>
    rw [piecesOf_line hq] at h
    rcases List.mem_cons.1 h with rfl | h
    · trivial
    · exact ih h

end FormScaffold.Region
