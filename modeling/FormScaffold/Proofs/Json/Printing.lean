import FormScaffold.Json.Printer
import FormScaffold.Proofs.Number.Text
import Mathlib.Data.List.Chain
import Mathlib.Data.Nat.Init

/-! # Characters of written text

What a written value looks like, whatever it holds.

* **`escapeChar_cases`** — a character of a text stands for itself or is escaped by a backslash,
  letters and digits;
* `isNumeric_of_mem_realLiteral` — a number consists of letters, digits, points and signs;
* **`isSealed_write`** — no line of a written value ends in a semicolon, and none but the first
  starts with a letter. -/

namespace FormScaffold.Json

open Text

/-! ## Deciding over texts -/

section

variable (p : Char → Prop) [DecidablePred p]

/-- What is said of the characters of a text is decided by looking at these, not at all there
are. -/
instance (priority := 2000) decidableForallMem (cs : List Char) : Decidable (∀ c ∈ cs, p c) :=
  List.decidableBAll p cs

instance (priority := 2000) decidableForallMemOption (o : Option Char) :
    Decidable (∀ c ∈ o, p c) :=
  decidable_of_iff (∀ c ∈ o.toList, p c) (by simp)

end

/-! ## Escapes -/

/-- The characters that escapes are made of, behind their backslash. -/
def escapeLetters : List Char := "0123456789abcdefnrtu\\\"".toList

/-- A hexadecimal digit is a letter of escapes. -/
theorem hexDigit_mem_escapeLetters (n : Nat) : hexDigit (n % 16) ∈ escapeLetters := by
  have h : ∀ k : Fin 16, hexDigit k ∈ escapeLetters := by decide
  exact h ⟨n % 16, Nat.mod_lt n (by decide)⟩

/-- All digits of a hexadecimal number are letters of escapes. -/
theorem mem_escapeLetters_of_mem_hexDigits {width n : Nat} {c : Char} (h : c ∈ hexDigits width n) :
    c ∈ escapeLetters := by
  induction width generalizing n with
  | zero => simp [hexDigits] at h
  | succ width ih =>
    rw [hexDigits, List.mem_append, List.mem_singleton] at h
    rcases h with h | rfl
    · exact ih h
    · exact hexDigit_mem_escapeLetters n

/-- What is escaped by its number is written with letters of escapes alone. -/
theorem mem_escapeLetters_of_mem_unicodeEscape {n : Nat} {c : Char} (h : c ∈ unicodeEscape n) :
    c ∈ escapeLetters := by
  rw [unicodeEscape, List.mem_cons, List.mem_cons] at h
  rcases h with rfl | rfl | h
  · decide
  · decide
  · exact mem_escapeLetters_of_mem_hexDigits h

/-- **A character of a text stands for itself**, and is then no quote, no backslash, no control and
none that the style escapes, **or it is escaped by a backslash.** -/
theorem escapeChar_cases (escaping : Escaping) (c : Char) :
    (escapeChar escaping c = [c] ∧ c ≠ '"' ∧ c ≠ '\\' ∧
      (decide (c.toNat < 0x20) || escaping.covers c) = false) ∨
    ∃ cs, escapeChar escaping c = '\\' :: cs ∧ ∀ d ∈ cs, d ∈ escapeLetters := by
  unfold escapeChar
  iterate 7
    split
    · exact .inr ⟨_, rfl, by decide⟩
  split
  · exact .inr ⟨_, rfl, fun d hd =>
      mem_escapeLetters_of_mem_unicodeEscape (List.mem_cons_of_mem _ hd)⟩
  · rename_i hquote hbackslash _ _ _ _ _ hplain
    exact .inl ⟨rfl, by simpa using hquote, by simpa using hbackslash, Bool.eq_false_iff.2 hplain⟩

section Texts

variable {p : Char → Prop} {escaping : Escaping} (hescape : ∀ c ∈ escapeLetters, p c)
include hescape

/-- A character is escaped by letters and digits, or it stands for itself. -/
theorem forall_mem_escapeChar {c : Char}
    (hself : (decide (c.toNat < 0x20) || escaping.covers c) = false → p c) :
    ∀ d ∈ escapeChar escaping c, p d := by
  intro d hd
  rcases escapeChar_cases escaping c with ⟨heq, -, -, hplain⟩ | ⟨cs, heq, hcs⟩
  · rw [heq] at hd
    rw [List.mem_singleton.1 hd]
    exact hself hplain
  · rw [heq] at hd
    rcases List.mem_cons.1 hd with rfl | hd
    · exact hescape '\\' (by decide)
    · exact hescape d (hcs d hd)

/-- What holds of the letters of escapes, and of the characters that are not escaped, holds of all
characters of a literal. -/
theorem forall_mem_textLiteral
    (hself : ∀ c, (decide (c.toNat < 0x20) || escaping.covers c) = false → p c) (s : String) :
    ∀ c ∈ textLiteral escaping s, p c := by
  have hquote : p '"' := hescape '"' (by decide)
  rw [textLiteral, List.forall_mem_append, List.forall_mem_cons, List.forall_mem_singleton]
  refine ⟨⟨hquote, fun c hc => ?_⟩, hquote⟩
  obtain ⟨d, -, hc⟩ := List.mem_flatMap.1 hc
  exact forall_mem_escapeChar hescape (hself d) c hc

end Texts

/-! ## Numbers -/

/-- The characters that numbers are made of. -/
def isNumeric (c : Char) : Bool := c.isAlphanum || c == '.' || c == '+' || c == '-'

/-- Digits are characters of numbers. -/
theorem isNumeric_of_isDigit (c : Char) (h : c.isDigit = true) : isNumeric c = true := by
  simp [isNumeric, Char.isAlphanum, h]

/-- The digits of a whole number are characters of numbers. -/
theorem isNumeric_of_mem_toDigits {n : Nat} {c : Char} (h : c ∈ Nat.toDigits 10 n) :
    isNumeric c = true :=
  Real64.forall_mem_toDigits isNumeric_of_isDigit n c h

/-- A whole number is written with digits and a sign. -/
theorem isNumeric_of_mem_intLiteral {n : Int} {c : Char} (h : c ∈ intLiteral n) :
    isNumeric c = true := by
  rcases List.mem_append.1 h with h | h
  · split at h
    · rw [List.mem_singleton.1 h]
      decide
    · exact absurd h List.not_mem_nil
  · exact isNumeric_of_mem_toDigits h

/-- A real number is written with characters of numbers, and so are the names of those that are not
finite. -/
theorem isNumeric_of_mem_realLiteral {x : Real64} {c : Char} (h : c ∈ realLiteral x) :
    isNumeric c = true := by
  cases x with
  | nan =>
    revert c
    decide
  | infinite negative =>
    revert c
    cases negative <;> decide
  | finite negative mantissa exponent =>
    rw [realLiteral, Real64.textWith, String.toList_ofList] at h
    exact Real64.forall_mem_finiteText isNumeric_of_isDigit (by decide) _ _ _ c h

/-! ## Lines -/

/-- One character may stand before another when no line ends in a semicolon and none starts with
a letter, as a declaration would. -/
def Fits (a b : Char) : Prop := (a = ';' → b ≠ '\n') ∧ (a = '\n' → b.isAlpha = false)

instance : DecidableRel Fits := fun a b =>
  inferInstanceAs (Decidable ((a = ';' → b ≠ '\n') ∧ (a = '\n' → b.isAlpha = false)))

/-- **Inside the text no line ends in a semicolon and none starts a declaration**, whatever
stands behind the text. -/
structure IsSealed (cs : List Char) : Prop where
  fits : cs.IsChain Fits
  last : ∀ c ∈ cs.getLast?, c ≠ ';' ∧ c ≠ '\n'

instance (cs : List Char) : Decidable (IsSealed cs) :=
  decidable_of_iff (cs.IsChain Fits ∧ ∀ c ∈ cs.getLast?, c ≠ ';' ∧ c ≠ '\n')
    ⟨fun h => ⟨h.1, h.2⟩, fun h => ⟨h.1, h.2⟩⟩

/-- The empty text is sealed. -/
theorem isSealed_nil : IsSealed [] := by decide

/-- Behind a sealed text any text may follow that fits by itself. -/
theorem IsSealed.fits_append {as bs : List Char} (ha : IsSealed as) (hb : bs.IsChain Fits) :
    (as ++ bs).IsChain Fits := by
  refine List.isChain_append.2 ⟨ha.fits, hb, ?_⟩
  intro a hmem b _
  obtain ⟨hsemicolon, hlf⟩ := ha.last a hmem
  exact ⟨fun h => absurd h hsemicolon, fun h => absurd h hlf⟩

/-- Sealed texts one behind the other are sealed. -/
theorem IsSealed.append {as bs : List Char} (ha : IsSealed as) (hb : IsSealed bs) :
    IsSealed (as ++ bs) := by
  refine ⟨ha.fits_append hb.fits, ?_⟩
  intro c hc
  rw [List.getLast?_append, Option.mem_def, Option.or_eq_some_iff] at hc
  rcases hc with hc | ⟨-, hc⟩
  · exact hb.last c hc
  · exact ha.last c hc

/-- A character that is neither a semicolon nor a line feed may stand before a sealed text. -/
theorem IsSealed.cons {c : Char} {cs : List Char} (hc : c ≠ ';' ∧ c ≠ '\n') (hcs : IsSealed cs) :
    IsSealed (c :: cs) := by
  refine IsSealed.append ⟨List.isChain_singleton c, ?_⟩ hcs
  intro d hd
  rwa [← Option.some.inj hd]

/-- A text without line feeds is sealed when it does not end in a semicolon. -/
theorem isSealed_of_forall {cs : List Char} (hlf : ∀ c ∈ cs, c ≠ '\n')
    (hlast : cs.getLast? ≠ some ';') : IsSealed cs := by
  refine ⟨?_, ?_⟩
  · refine (List.pairwise_of_forall_mem_list (r := Fits) fun a ha b hb => ?_).isChain
    exact ⟨fun _ => hlf b hb, fun h => absurd h (hlf a ha)⟩
  · intro c hc
    refine ⟨?_, hlf c (List.mem_of_getLast? hc)⟩
    rintro rfl
    exact hlast hc

/-- Numbers are sealed. -/
theorem isSealed_of_numeric {cs : List Char} (h : ∀ c ∈ cs, isNumeric c = true) :
    IsSealed cs := by
  refine isSealed_of_forall ?_ ?_
  · rintro c hc rfl
    exact absurd (h _ hc) (by decide)
  · intro hlast
    exact absurd (h _ (List.mem_of_getLast? hlast)) (by decide)

/-- The literal of a text is sealed: its line feeds are escaped, and it ends in a quote. -/
theorem isSealed_textLiteral (escaping : Escaping) (s : String) :
    IsSealed (textLiteral escaping s) := by
  -- No text breaks the line of its literal.
  refine isSealed_of_forall (forall_mem_textLiteral (by decide) (fun c hplain => ?_) s)
    (by simp [textLiteral, List.getLast?_cons])
  rintro rfl
  simp at hplain

/-- What stands at the start of a line, blanks and at least one of them, or a bracket. -/
theorem isSealed_lineStart (level : Nat) {c : Char}
    (h : c ≠ '\n' ∧ c ≠ ';' ∧ c.isAlpha = false) : IsSealed (lineStart level ++ [c]) := by
  obtain ⟨hlf, hsemicolon, hletter⟩ := h
  have hblanks : ∀ d ∈ List.replicate (2 * level) ' ' ++ [c], d ≠ '\n' ∧ d.isAlpha = false := by
    intro d hd
    rcases List.mem_append.1 hd with hd | hd
    · rw [List.eq_of_mem_replicate hd]
      decide
    · rw [List.mem_singleton.1 hd]
      exact ⟨hlf, hletter⟩
  have hline : IsSealed (List.replicate (2 * level) ' ' ++ [c]) :=
    isSealed_of_forall (fun d hd => (hblanks d hd).1) (by simp [hsemicolon])
  refine ⟨List.isChain_cons.2 ⟨?_, hline.fits⟩, ?_⟩
  · intro d hd
    exact ⟨fun h => absurd h (by decide), fun _ => (hblanks d (List.mem_of_mem_head? hd)).2⟩
  · simp [lineStart, List.getLast?_cons, hlf, hsemicolon]

/-- The start of an indented line is sealed, since blanks follow the line feed. -/
theorem isSealed_indent (level : Nat) : IsSealed (lineStart (level + 1)) := by
  have hlast : lineStart (level + 1) = lineStart level ++ [' '] ++ [' '] := by
    rw [lineStart, lineStart, Nat.mul_succ, ← List.replicate_append_replicate]
    simp
  rw [hlast]
  exact (isSealed_lineStart level (by decide)).append (by decide)

/-- What stands before an item or an entry is sealed, in every style. -/
theorem isSealed_before (style : Style) (level : Nat) (isFirst : Bool) :
    IsSealed (if isFirst then style.opening (level + 1) else style.between (level + 1)) := by
  unfold Style.opening Style.between
  have hcomma : IsSealed (',' :: lineStart (level + 1)) :=
    IsSealed.cons (by decide) (isSealed_indent level)
  split <;> split
  · exact isSealed_indent level
  · exact isSealed_nil
  · exact hcomma
  · decide

/-- What closes a list or a record is sealed, in every style. -/
theorem isSealed_closing (style : Style) (level : Nat) (isFirst : Bool) {c : Char}
    (h : c ≠ '\n' ∧ c ≠ ';' ∧ c.isAlpha = false) :
    IsSealed ((if isFirst then [] else style.closing level) ++ [c]) := by
  have hbracket : IsSealed [c] := isSealed_of_forall (by simp [h.1]) (by simp [h.2.1])
  unfold Style.closing
  split
  · exact hbracket
  · split
    · exact isSealed_lineStart level h
    · exact hbracket

mutual

/-- **Inside a written value no line ends in a semicolon and none starts a declaration.** A line
feed of an indented block is followed by blanks or by a closing mark, and those of texts are
escaped. -/
theorem isSealed_write (style : Style) (level : Nat) : ∀ v, IsSealed (write style level v)
  | .null => by rw [write]; decide
  | .bool b => by rw [write]; cases b <;> decide
  | .int n => by rw [write]; exact isSealed_of_numeric fun c hc => isNumeric_of_mem_intLiteral hc
  | .real x => by rw [write]; exact isSealed_of_numeric fun c hc => isNumeric_of_mem_realLiteral hc
  | .text s => by rw [write]; exact isSealed_textLiteral style.escaping s
  | .list items => by
    rw [write]
    exact IsSealed.cons (by decide) (isSealed_writeItems style level true items)
  | .record entries => by
    rw [write]
    exact IsSealed.cons (by decide) (isSealed_writeEntries style level true entries)

/-- The items of a list are sealed, up to the bracket that closes it. -/
theorem isSealed_writeItems (style : Style) (level : Nat) (isFirst : Bool) :
    ∀ vs, IsSealed (writeItems style level isFirst vs ++ [']'])
  | [] => by
    rw [writeItems]
    exact isSealed_closing style level isFirst (by decide)
  | v :: vs => by
    rw [writeItems, List.append_assoc]
    exact ((isSealed_before style level isFirst).append (isSealed_write style (level + 1) v)).append
      (isSealed_writeItems style level false vs)

/-- The entries of a record are sealed, up to the brace that closes it. -/
theorem isSealed_writeEntries (style : Style) (level : Nat) (isFirst : Bool) :
    ∀ es, IsSealed (writeEntries style level isFirst es ++ ['\x7d'])
  | [] => by
    rw [writeEntries]
    exact isSealed_closing style level isFirst (by decide)
  | (k, v) :: es => by
    have hvalue : IsSealed (':' :: ' ' :: write style (level + 1) v) :=
      IsSealed.cons (by decide) (IsSealed.cons (by decide) (isSealed_write style (level + 1) v))
    rw [writeEntries, List.append_assoc]
    exact (((isSealed_before style level isFirst).append
      (isSealed_textLiteral style.escaping k)).append hvalue).append
      (isSealed_writeEntries style level false es)

end

end FormScaffold.Json
