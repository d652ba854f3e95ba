import FormScaffold.Proofs.Json.Decimals
import FormScaffold.Proofs.Json.RoundTrip
import FormScaffold.Proofs.View.Calm
import FormScaffold.Text.Line

/-! # Literals in generated code

A value enters generated code as JSON, on one line or as an indented block. The literal is written,
and then the separators at which some readers break lines are replaced in all of it by their
escapes. The value is read back from either literal, and neither makes a line that the generated
code should not have.

* **`forall_mem_write`** — what a style allows holds of every character that it writes;
* `escapeBreaks` — the separators replaced, one after the other;
* **`escapeBreaks_write`** — replaced in the whole literal, they are replaced in its texts and keys
  and nowhere else;
* `isLineBreak_of_mem_literal`, `isPlain_block` — how literals break lines;
* `readText?_literal`, `readText?_block` — literals are read back;
* **`literals_read_back`** — all of that, for every value. -/

namespace FormScaffold.Json

open Text

/-! ## Characters of written values -/

/-- What holds of the characters that a style writes: those of numbers and words, the marks, the
breaks of an indented block, and the characters of text literals. -/
structure Allows (style : Style) (p : Char → Prop) : Prop where
  numeric : ∀ c, isNumeric c = true → p c
  marks : ∀ c ∈ "[]\x7b\x7d:, ".toList, p c
  breaks : style.indented = true → p '\n'
  texts : ∀ s, ∀ c ∈ textLiteral style.escaping s, p c

section Characters

variable {p : Char → Prop} {style : Style} (h : Allows style p)
include h

/-- What an indented style allows holds of the starts of lines. -/
theorem forall_mem_lineStart (hindented : style.indented = true) (level : Nat) :
    ∀ c ∈ lineStart level, p c := by
  refine List.forall_mem_cons.2 ⟨h.breaks hindented, fun c hc => ?_⟩
  rw [List.eq_of_mem_replicate hc]
  exact h.marks ' ' (by decide)

/-- What a style allows holds of what stands before items and entries. -/
theorem forall_mem_before (level : Nat) (isFirst : Bool) :
    ∀ c ∈ if isFirst then style.opening level else style.between level, p c := by
  have hcomma : p ',' := h.marks ',' (by decide)
  unfold Style.opening Style.between
  split <;> split
  · exact forall_mem_lineStart h ‹_› level
  · simp
  · exact List.forall_mem_cons.2 ⟨hcomma, forall_mem_lineStart h ‹_› level⟩
  · exact List.forall_mem_cons.2 ⟨hcomma, List.forall_mem_singleton.2 (h.marks ' ' (by decide))⟩

/-- What a style allows holds of what closes lists and records. -/
theorem forall_mem_closing (level : Nat) (isFirst : Bool) :
    ∀ c ∈ if isFirst then [] else style.closing level, p c := by
  unfold Style.closing
  split
  · simp
  · split
    · exact forall_mem_lineStart h ‹_› level
    · simp

/-- What a style allows holds of words and numbers. -/
theorem forall_mem_word {word : List Char} (hword : ∀ c ∈ word, isNumeric c = true) :
    ∀ c ∈ word, p c := fun c hc => h.numeric c (hword c hc)

mutual

/-- **What a style allows holds of every character that it writes.** The induction is on the value,
with its items and its entries. -/
theorem forall_mem_write (level : Nat) : ∀ v, ∀ c ∈ write style level v, p c
  | .null => by rw [write]; exact forall_mem_word h (by decide)
  | .bool b => by rw [write]; cases b <;> exact forall_mem_word h (by decide)
  | .int n => by rw [write]; exact forall_mem_word h fun c hc => isNumeric_of_mem_intLiteral hc
  | .real x => by rw [write]; exact forall_mem_word h fun c hc => isNumeric_of_mem_realLiteral hc
  | .text s => by rw [write]; exact h.texts s
  | .list items => by
    rw [write, List.forall_mem_append, List.forall_mem_cons, List.forall_mem_singleton]
    exact ⟨⟨h.marks '[' (by decide), forall_mem_writeItems level true items⟩,
      h.marks ']' (by decide)⟩
  | .record entries => by
    rw [write, List.forall_mem_append, List.forall_mem_cons, List.forall_mem_singleton]
    exact ⟨⟨h.marks '\x7b' (by decide), forall_mem_writeEntries level true entries⟩,
      h.marks '\x7d' (by decide)⟩

/-- What a style allows holds of the items of a list. -/
theorem forall_mem_writeItems (level : Nat) (isFirst : Bool) :
    ∀ vs, ∀ c ∈ writeItems style level isFirst vs, p c
  | [] => by rw [writeItems]; exact forall_mem_closing h level isFirst
  | v :: vs => by
    rw [writeItems, List.forall_mem_append, List.forall_mem_append]
    exact ⟨⟨forall_mem_before h (level + 1) isFirst, forall_mem_write (level + 1) v⟩,
      forall_mem_writeItems level false vs⟩

/-- What a style allows holds of the entries of a record. -/
theorem forall_mem_writeEntries (level : Nat) (isFirst : Bool) :
    ∀ es, ∀ c ∈ writeEntries style level isFirst es, p c
  | [] => by rw [writeEntries]; exact forall_mem_closing h level isFirst
  | (k, v) :: es => by
    rw [writeEntries, List.forall_mem_append, List.forall_mem_append, List.forall_mem_append,
      List.forall_mem_cons, List.forall_mem_cons]
    exact ⟨⟨⟨forall_mem_before h (level + 1) isFirst, h.texts k⟩, h.marks ':' (by decide),
      h.marks ' ' (by decide), forall_mem_write (level + 1) v⟩,
      forall_mem_writeEntries level false es⟩

end

end Characters

/-! ## Separators replaced -/

/-- The separators that are replaced. -/
def separators : List Nat := [0x85, 0x2028, 0x2029]

/-- **The separators replaced by their escapes**, wherever they stand. -/
def escapeBreaks (cs : List Char) : List Char :=
  separators.foldl (fun cs n => replaceAll [Char.ofNat n] (unicodeEscape n) cs) cs

/-- What becomes of one character. -/
def escapeBreak (c : Char) : List Char :=
  if Escaping.lineSafe.covers c then unicodeEscape c.toNat else [c]

/-- One character is replaced where it stands. -/
theorem replaceAll_singleton (a : Char) (new cs : List Char) :
    replaceAll [a] new cs = cs.flatMap fun c => if c = a then new else [c] := by
  induction cs with
  | nil => rfl
  | cons c cs ih =>
    rw [replaceAll] at ih ⊢
    by_cases hc : c = a
    · subst hc
      simp [replaceFrom, ih]
    · simp [replaceFrom, ih, hc, Ne.symm hc]

/-- The characters that are escaped beside those of JSON are the three separators at which some
readers break lines. -/
theorem covers_lineSafe_iff {c : Char} :
    Escaping.lineSafe.covers c = true ↔
      c = Char.ofNat 0x85 ∨ c = Char.ofNat 0x2028 ∨ c = Char.ofNat 0x2029 := by
  simp [Escaping.covers, ← Char.toNat_inj, or_assoc]

/-- **No replacement touches what another one put in**, so that each character has its own. The
escapes are of ASCII characters, among which there is no separator. -/
theorem escapeBreaks_eq_flatMap (cs : List Char) : escapeBreaks cs = cs.flatMap escapeBreak := by
  simp only [escapeBreaks, separators, List.foldl_cons, List.foldl_nil, replaceAll_singleton,
    List.flatMap_assoc]
  refine congrArg (cs.flatMap ·) (funext fun c => ?_)
  by_cases hcovers : Escaping.lineSafe.covers c = true
  · rcases covers_lineSafe_iff.1 hcovers with rfl | rfl | rfl <;> decide
  · obtain ⟨h1, h2⟩ := not_or.1 (mt covers_lineSafe_iff.2 hcovers)
    obtain ⟨h2, h3⟩ := not_or.1 h2
    simp [escapeBreak, hcovers, h1, h2, h3]

/-- The separators are replaced in two texts one by one. -/
theorem escapeBreaks_append (as bs : List Char) :
    escapeBreaks (as ++ bs) = escapeBreaks as ++ escapeBreaks bs := by
  simp only [escapeBreaks_eq_flatMap, List.flatMap_append]

/-- Text without separators stays as it is. -/
theorem escapeBreaks_eq_self {cs : List Char}
    (h : ∀ c ∈ cs, Escaping.lineSafe.covers c = false) : escapeBreaks cs = cs := by
  rw [escapeBreaks_eq_flatMap]
  induction cs with
  | nil => rfl
  | cons c cs ih =>
    obtain ⟨hc, hcs⟩ := List.forall_mem_cons.1 h
    rw [List.flatMap_cons, ih hcs, escapeBreak, hc, if_neg Bool.false_ne_true]
    rfl

/-- No character of a number is a separator. -/
theorem covers_of_isNumeric {c : Char} (h : isNumeric c = true) :
    Escaping.lineSafe.covers c = false := by
  rw [← Bool.not_eq_true, covers_lineSafe_iff]
  rintro (rfl | rfl | rfl) <;> exact absurd h (by decide)

/-- No letter of an escape is a separator. -/
theorem covers_of_mem_escapeLetters :
    ∀ c ∈ escapeLetters, Escaping.lineSafe.covers c = false := by
  decide

/-- The line-safe styles write no separator. -/
theorem allows_lineSafe (indented : Bool) :
    Allows ⟨.lineSafe, indented⟩ fun c => Escaping.lineSafe.covers c = false where
  numeric _ h := covers_of_isNumeric h
  marks := by decide
  breaks _ := by decide
  texts := forall_mem_textLiteral covers_of_mem_escapeLetters
    fun _ h => (Bool.or_eq_false_iff.1 h).2

/-- What is replaced in an escaped character is what would have been escaped otherwise. -/
theorem escapeBreaks_escapeChar (c : Char) :
    escapeBreaks (escapeChar .plain c) = escapeChar .lineSafe c := by
  by_cases hcovers : Escaping.lineSafe.covers c = true
  · rcases covers_lineSafe_iff.1 hcovers with rfl | rfl | rfl <;> decide
  · rw [Bool.not_eq_true] at hcovers
    have hsame : escapeChar .lineSafe c = escapeChar .plain c := by
      unfold escapeChar
      rw [hcovers]
      rfl
    rw [hsame]
    exact escapeBreaks_eq_self (forall_mem_escapeChar covers_of_mem_escapeLetters fun _ => hcovers)

/-- Replaced in the literal of a text, the separators are escaped as the line-safe style escapes
them at once. -/
theorem escapeBreaks_textLiteral (s : String) :
    escapeBreaks (textLiteral .plain s) = textLiteral .lineSafe s := by
  have hinner : ∀ cs : List Char, escapeBreaks (cs.flatMap (escapeChar .plain)) =
      cs.flatMap (escapeChar .lineSafe) := by
    intro cs
    induction cs with
    | nil => rfl
    | cons c cs ih =>
      rw [List.flatMap_cons, escapeBreaks_append, ih, escapeBreaks_escapeChar, List.flatMap_cons]
  have hquote : escapeBreaks ['"'] = ['"'] := by decide
  have hsplit : ∀ escaping, textLiteral escaping s =
      ['"'] ++ s.toList.flatMap (escapeChar escaping) ++ ['"'] := fun _ => rfl
  rw [hsplit, hsplit, escapeBreaks_append, escapeBreaks_append, hinner, hquote]

section Layout

variable (indented : Bool)

/-- What stands around items is the same in both styles. -/
theorem escapeBreaks_before (level : Nat) (isFirst : Bool) :
    escapeBreaks (if isFirst then Style.opening ⟨.plain, indented⟩ level
        else Style.between ⟨.plain, indented⟩ level) =
      if isFirst then Style.opening ⟨.lineSafe, indented⟩ level
        else Style.between ⟨.lineSafe, indented⟩ level :=
  escapeBreaks_eq_self (forall_mem_before (allows_lineSafe indented) level isFirst)

/-- What closes lists and records has no separators. -/
theorem escapeBreaks_closing (level : Nat) (isFirst : Bool) :
    escapeBreaks (if isFirst then [] else Style.closing ⟨.plain, indented⟩ level) =
      if isFirst then [] else Style.closing ⟨.lineSafe, indented⟩ level :=
  escapeBreaks_eq_self (forall_mem_closing (allows_lineSafe indented) level isFirst)

mutual

/-- **Separators replaced in the whole of a literal** are replaced in its texts and keys, each by
its escape, and nowhere else. Outside of texts and keys a literal has only marks, digits, words and
blanks. -/
theorem escapeBreaks_write (level : Nat) : ∀ v,
    escapeBreaks (write ⟨.plain, indented⟩ level v) = write ⟨.lineSafe, indented⟩ level v
  | .null => by rw [write, write]; decide
  | .bool b => by rw [write, write]; cases b <;> decide
  | .int n => by
    rw [write, write]
    exact escapeBreaks_eq_self fun c hc => covers_of_isNumeric (isNumeric_of_mem_intLiteral hc)
  | .real x => by
    rw [write, write]
    exact escapeBreaks_eq_self fun c hc => covers_of_isNumeric (isNumeric_of_mem_realLiteral hc)
  | .text s => by rw [write, write, escapeBreaks_textLiteral]
  | .list items => by
    rw [write, write, escapeBreaks_append, ← List.singleton_append, escapeBreaks_append,
      escapeBreaks_writeItems level true items]
    rfl
  | .record entries => by
    rw [write, write, escapeBreaks_append, ← List.singleton_append, escapeBreaks_append,
      escapeBreaks_writeEntries level true entries]
    rfl

/-- Replaced in the items of a list, the separators are replaced in their literals. -/
theorem escapeBreaks_writeItems (level : Nat) (isFirst : Bool) : ∀ vs,
    escapeBreaks (writeItems ⟨.plain, indented⟩ level isFirst vs) =
      writeItems ⟨.lineSafe, indented⟩ level isFirst vs
  | [] => by rw [writeItems, writeItems, escapeBreaks_closing]
  | v :: vs => by
    rw [writeItems, writeItems, escapeBreaks_append, escapeBreaks_append, escapeBreaks_before,
      escapeBreaks_write (level + 1) v, escapeBreaks_writeItems level false vs]

/-- Replaced in the entries of a record, the separators are replaced in their keys and literals. -/
theorem escapeBreaks_writeEntries (level : Nat) (isFirst : Bool) : ∀ es,
    escapeBreaks (writeEntries ⟨.plain, indented⟩ level isFirst es) =
      writeEntries ⟨.lineSafe, indented⟩ level isFirst es
  | [] => by rw [writeEntries, writeEntries, escapeBreaks_closing]
  | (k, v) :: es => by
    have hcolon : ∀ cs : List Char, ':' :: ' ' :: cs = [':', ' '] ++ cs := fun _ => rfl
    have hmark : escapeBreaks [':', ' '] = [':', ' '] := by decide
    rw [writeEntries, writeEntries, hcolon (write ⟨.plain, indented⟩ _ _),
      hcolon (write ⟨.lineSafe, indented⟩ _ _), escapeBreaks_append, escapeBreaks_append,
      escapeBreaks_append, escapeBreaks_append, escapeBreaks_before, escapeBreaks_textLiteral,
      hmark, escapeBreaks_write (level + 1) v, escapeBreaks_writeEntries level false es]

end

end Layout

end FormScaffold.Json

namespace FormScaffold.View

open Json Region Text

/-! ## Lines -/

/-- Written on one line, a value breaks none. -/
theorem allows_unbroken : Allows ⟨.lineSafe, false⟩ fun c => isLineBreak c = false where
  numeric c h := by
    have hinert := isInert_of_isNumeric h
    simp only [isInert, Bool.and_eq_true, Bool.not_eq_true'] at hinert
    exact hinert.1.1
  marks := by decide
  breaks h := absurd h Bool.false_ne_true
  texts := forall_mem_textLiteral isLineBreak_of_mem_escapeLetters
    fun _ => isLineBreak_of_not_escaped

/-- A literal on one line breaks no line, whatever the value holds. -/
theorem isLineBreak_of_mem_literal (v : Value) :
    ∀ c ∈ (literal v).toList, isLineBreak c = false := by
  rw [literal, Json.inline, String.toList_ofList]
  exact forall_mem_write allows_unbroken 0 v

/-- A block breaks its lines with line feeds, and none of its lines is a marker. -/
theorem isPlain_block (v : Value) : IsPlain (block v).toList := by
  obtain ⟨q, -, hq⟩ := isCalm_block v .start (by decide)
  exact isPlain_of_leads hq

/-! ## Reading -/

section

variable {v : Value} (hreals : ∀ x ∈ reals v, Number.readReal? x.toText.toList = some x)
  (hv : IsWellFormed v)
include hreals hv

/-- **The value is read back from its literal on one line.** -/
theorem readText?_literal : readText? (literal v) = some v := by
  rw [readText?, literal, Json.inline, String.toList_ofList]
  exact read?_write_of_isWellFormed (fun x hx => readsBack_of_readReal? (hreals x hx)) _ hv 0

/-- **The value is read back from its literal on several lines.** -/
theorem readText?_block : readText? (block v) = some v := by
  rw [readText?, block, indented, String.toList_ofList]
  exact read?_write_of_isWellFormed (fun x hx => readsBack_of_readReal? (hreals x hx)) _ hv 0

/-- **Literals lose nothing and break no line.** Take any value whose records repeat no key and
whose floating numbers are read back from their texts. Either literal of it is JSON in which the
three separators were replaced by escapes, and is read as the value again: with the keys of records
in their order, and with whole, floating and truth values kept apart. Written on one line it breaks
none; as a block it breaks lines with line feeds alone, and none of them is a marker. -/
theorem literals_read_back :
    (readText? (literal v) = some v ∧ readText? (block v) = some v) ∧
    ((literal v).toList = escapeBreaks (Json.inline .plain v).toList ∧
      (block v).toList = escapeBreaks (indented .plain v).toList) ∧
    (∀ c ∈ (literal v).toList, isLineBreak c = false) ∧
    (∀ c ∈ (block v).toList, isLineBreak c = true → c = '\n') ∧
    ∀ l ∈ Text.lines (block v).toList, isMarkerLine l = false := by
  have hplain := isPlain_block v
  refine ⟨⟨readText?_literal hreals hv, readText?_block hreals hv⟩, ⟨?_, ?_⟩,
    isLineBreak_of_mem_literal v, hplain.breaks, hplain.lines⟩
  · rw [literal, Json.inline, Json.inline, String.toList_ofList, String.toList_ofList,
      escapeBreaks_write]
  · rw [block, indented, indented, String.toList_ofList, String.toList_ofList, escapeBreaks_write]

end

/-- A record with a list in it, numbers of both kinds, and a key and a text with separators, quotes
and backslashes. -/
def mixedValue : Value :=
  .record [("b\u2028", .list [.int 1, .real (Real64.ofDecimal false 1 0), .bool true, .null]),
    ("a", .record [("\\\"", .text "// >>> doctype-ui:begin a\n\\u2029\u2029\r\""),
      ("", .real (Real64.ofDecimal true 25 15))])]

/-- **A value with separators, escapes and numbers of both kinds** is read back. -/
theorem literals_read_back_mixed :
    (∀ x ∈ reals mixedValue, Number.readReal? x.toText.toList = some x) ∧
      IsWellFormed mixedValue ∧ readText? (literal mixedValue) = some mixedValue ∧
      readText? (block mixedValue) = some mixedValue ∧
      ∀ l ∈ Text.lines (block mixedValue).toList, isMarkerLine l = false := by
  have hreals : ∀ x ∈ reals mixedValue, Number.readReal? x.toText.toList = some x := by
    decide +kernel
  have hv : IsWellFormed mixedValue := by
    simp [mixedValue]
  obtain ⟨⟨hliteral, hblock⟩, -, -, -, hlines⟩ := literals_read_back hreals hv
  exact ⟨hreals, hv, hliteral, hblock, hlines⟩

end FormScaffold.View
