import FormScaffold.Proofs.Expression.Joining

/-! # Texts in lists of literals

A text is written as a literal between quotes, with a backslash before every quote of that kind and
every backslash in it. Whatever the text holds, such a literal is one token, and it is read as the
text.

* `literalText`, `memberText` — a text as a literal, and a field looked up in a list of literals;
* **`lexes_literalText`** — a literal is read as the text that it was written from, whatever
  follows;
* **`parseText_memberText`** — the items of the list are the texts, and the expression holds where
  the field is one of them. -/

namespace FormScaffold.Expression

open Text

/-! ## Literals -/

/-- A character inside a literal. -/
def literalChar (quote c : Char) : List Char := if c == '\\' || c == quote then ['\\', c] else [c]

/-- A text as a literal between quotes. -/
def literalText (quote : Char) (s : String) : List Char :=
  quote :: (s.toList.flatMap (literalChar quote) ++ [quote])

/-- There are two quotes. -/
theorem isQuote_iff {c : Char} : isQuote c = true ↔ c = '\'' ∨ c = '"' := by
  simp [isQuote]

section Quote

variable {quote : Char} (hquote : isQuote quote = true)
include hquote

/-- A backslash before a quote or before another backslash is all that it takes. -/
theorem unescape_quote : unescape quote = quote ∧ unescape '\\' = '\\' := by
  rcases isQuote_iff.1 hquote with rfl | rfl <;> decide

/-- One character of a literal is read as it was written. -/
theorem takeText?_literalChar (c : Char) (cs : List Char) :
    takeText? quote (literalChar quote c ++ cs) =
      (takeText? quote cs).map fun r => (c :: r.1, r.2) := by
  have hbreak : quote ≠ '\n' := by
    rintro rfl
    exact absurd hquote (by decide)
  by_cases hescaped : c = '\\' ∨ c = quote
  · -- Neither of the two characters is a line feed or stands for another one.
    have hself : (c == '\n') = false ∧ unescape c = c := by
      rcases hescaped with rfl | rfl
      · exact ⟨by decide, (unescape_quote hquote).2⟩
      · exact ⟨beq_eq_false_iff_ne.2 hbreak, (unescape_quote hquote).1⟩
    have hwritten : literalChar quote c = ['\\', c] := by simp [literalChar, hescaped]
    rw [hwritten, List.cons_append, List.singleton_append, takeText?, hself.1, hself.2]
    rfl
  · have hwritten : literalChar quote c = [c] := by simp [literalChar, hescaped]
    rw [not_or] at hescaped
    rw [hwritten, List.singleton_append, takeText?_cons hescaped.1,
      beq_eq_false_iff_ne.2 hescaped.2, if_neg Bool.false_ne_true]

/-- **A literal ends at its own quote**, and what was read up to there is the text. A quote of the
same kind and a backslash are written with a backslash before them, and all else stands for itself.
-/
theorem takeText?_literal (cs rest : List Char) :
    takeText? quote (cs.flatMap (literalChar quote) ++ quote :: rest) = some (cs, rest) := by
  induction cs with
  | nil =>
    have hback : quote ≠ '\\' := by
      rintro rfl
      exact absurd hquote (by decide)
    rw [List.flatMap_nil, List.nil_append, takeText?_cons hback, beq_self_eq_true, if_pos rfl]
  | cons c cs ih =>
    rw [List.flatMap_cons, List.append_assoc, takeText?_literalChar hquote, ih, Option.map_some]

end Quote

/-- A number starts with a digit or with a minus. -/
theorem takeNumber?_eq_none {c : Char} (hdigit : isDigit c = false) (hminus : c ≠ '-')
    (cs : List Char) : takeNumber? (c :: cs) = none := by
  have hdigits : takeDigits? (c :: cs) = none := by
    rw [takeDigits?, List.span_eq_takeWhile_dropWhile, List.takeWhile_cons, hdigit]
    rfl
  have hnumber : takeNumber? (c :: cs) = takeUnsigned? false (c :: cs) := by
    simp [takeNumber?, hminus]
  rw [hnumber, takeUnsigned?, hdigits]
  rfl

/-- **A literal is one token, whatever follows it.** This holds of both quotes and of every text,
line breaks and brackets included. -/
theorem lexes_literalText {quote : Char} (hquote : isQuote quote = true) (s : String)
    {rest : List Char} {us : List Terminal} (h : Lexes rest us) :
    Lexes (literalText quote s ++ rest) (.literal (.text s) :: us) := by
  have htext : literalText quote s ++ rest =
      quote :: (s.toList.flatMap (literalChar quote) ++ quote :: rest) := by
    simp [literalText]
  have hstart : isBlank quote = false ∧ isDigit quote = false ∧ quote ≠ '-' := by
    rcases isQuote_iff.1 hquote with rfl | rfl <;> decide
  have htake : takeLexeme? (quote :: (s.toList.flatMap (literalChar quote) ++ quote :: rest)) =
      some (.literal (.text s), rest) := by
    have hliteral : takeLiteralText? (quote :: (s.toList.flatMap (literalChar quote) ++
        quote :: rest)) = some (.literal (.text s), rest) := by
      rw [takeLiteralText?, show (quote == '\'' || quote == '"') = true from hquote, if_pos rfl,
        takeText?_literal hquote, Option.map_some, String.ofList_toList]
    rw [takeLexeme?, takeNumber?_eq_none hstart.2.1 hstart.2.2, hliteral]
    rfl
  rw [htext]
  refine .token (l := .literal (.text s)) hstart.1 htake ?_ h
  simp only [List.length_append, List.length_cons]
  omega

/-! ## Lists -/

/-- The literals of texts with a comma and a space between them, in brackets. -/
def listText (quote : Char) (vs : List String) : List Char :=
  '[' :: ([',', ' '].intercalate (vs.map (literalText quote)) ++ [']'])

section Marks

variable {cs : List Char} {us : List Terminal} (h : Lexes cs us)
include h

/-- An opening square bracket is a lexeme of its own, whatever follows. -/
theorem Lexes.openList : Lexes ('[' :: cs) (.mark .openList :: us) :=
  .token (c := '[') (l := .mark .openList) (by decide) rfl (Nat.le_refl _) h

/-- A closing square bracket is a lexeme of its own, whatever follows. -/
theorem Lexes.closeList : Lexes (']' :: cs) (.mark .closeList :: us) :=
  .token (c := ']') (l := .mark .closeList) (by decide) rfl (Nat.le_refl _) h

/-- A comma is a lexeme of its own, whatever follows. -/
theorem Lexes.comma : Lexes (',' :: cs) (.mark .comma :: us) :=
  .token (c := ',') (l := .mark .comma) (by decide) rfl (Nat.le_refl _) h

end Marks

/-- The literals of a list are read one by one. -/
theorem lexes_literals {quote : Char} (hquote : isQuote quote = true) (vs : List String)
    {rest : List Char} {us : List Terminal} (h : Lexes rest us) :
    Lexes ([',', ' '].intercalate (vs.map (literalText quote)) ++ rest)
      (commaSeparated (vs.map .text) ++ us) := by
  induction vs with
  | nil => exact h
  | cons v vs ih =>
    cases vs with
    | nil => simpa [commaSeparated] using lexes_literalText hquote v h
    | cons v' vs =>
      -- Behind the literal come a comma and a space, and then the rest of the list.
      have hfirst := lexes_literalText hquote v ih.space.comma
      simpa [commaSeparated, List.intercalate_cons_cons] using hfirst

/-- **The list that was written is the list that is read.** The commas and the blanks between the
literals are no part of them. -/
theorem lexes_listText {quote : Char} (hquote : isQuote quote = true) (vs : List String) :
    Lexes (listText quote vs)
      (.mark .openList :: (commaSeparated (vs.map .text) ++ [.mark .closeList])) :=
  (lexes_literals hquote vs Lexes.nil.closeList).openList

/-! ## Fields -/

/-- The words that name no field. -/
def reservedWords : List String :=
  ["true", "True", "false", "False", "null", "None", "and", "or", "not", "in"]

/-- **The name of a field**, as expressions write it: an identifier that is not reserved. -/
structure IsFieldName (name : String) : Prop where
  start : ∃ c cs, name.toList = c :: cs ∧ isNameStart c = true ∧ ∀ d ∈ cs, isNameChar d = true
  free : name ∉ reservedWords

/-- A word that is not reserved names a field. -/
theorem ofWord_of_notMem {word : String} (h : word ∉ reservedWords) :
    Lexeme.ofWord word = .name word := by
  simp only [reservedWords, List.mem_cons, List.not_mem_nil, or_false, not_or] at h
  simp [Lexeme.ofWord, literalWord?, h]

/-- The codes of the characters with which a name starts. -/
theorem toNat_of_isNameStart {c : Char} (h : isNameStart c = true) :
    65 ≤ c.toNat ∧ c.toNat ≤ 122 := by
  rcases Bool.or_eq_true_iff.1 h with h | h
  · rcases isAlpha_iff.1 h with h | h <;> omega
  · rw [beq_iff_eq.1 h]
    decide

/-- A name starts neither a number nor a literal, and it starts with no blank. -/
theorem start_of_isNameStart {c : Char} (h : isNameStart c = true) :
    isDigit c = false ∧ c ≠ '-' ∧ isQuote c = false ∧ isBlank c = false := by
  have hcode := toNat_of_isNameStart h
  have hne : ∀ d : Char, d.toNat < 65 → c ≠ d := by
    rintro d hd rfl
    omega
  refine ⟨?_, hne '-' (by decide), ?_, ?_⟩
  · -- The digits of other scripts have higher codes.
    have hrows : ∀ r ∈ digitRows.ranges, r.2 < 65 ∨ 122 < r.1 := by decide
    have hnone : digitValue? c = none := by
      rw [digitValue?, Option.map_eq_none_iff, List.find?_eq_none]
      intro r hr
      have hrow := hrows r hr
      simp only [Bool.and_eq_true, decide_eq_true_eq]
      omega
    rw [isDigit, hnone]
    rfl
  · rw [← Bool.not_eq_true, isQuote_iff, not_or]
    exact ⟨hne '\'' (by decide), hne '"' (by decide)⟩
  · rw [← Bool.not_eq_true]
    simp only [isBlank, CharSet.has, blanks, List.any_cons, List.any_nil, Bool.or_eq_true,
      Bool.and_eq_true, decide_eq_true_eq, Bool.false_eq_true, or_false]
    omega

/-- **A field name is one token**, when nothing follows it. A reserved word would be read as
something else, and a name that goes on would be another one. -/
theorem IsFieldName.lexes {name : String} (h : IsFieldName name) :
    Lexes name.toList [.name name] := by
  obtain ⟨c, cs, hname, hstart, hrest⟩ := h.start
  obtain ⟨hdigit, hminus, hquote, hblank⟩ := start_of_isNameStart hstart
  have hall : cs.span isNameChar = (cs, []) := by
    rw [List.span_eq_takeWhile_dropWhile, List.takeWhile_eq_self_iff.2 hrest,
      List.dropWhile_eq_nil_iff.2 hrest]
  have hword : takeWord? (c :: cs) = some (.name name, []) := by
    rw [takeWord?, if_pos hstart, hall]
    simp only [← hname, String.ofList_toList, ofWord_of_notMem h.free]
  have htake : takeLexeme? (c :: cs) = some (.name name, []) := by
    rw [takeLexeme?, takeNumber?_eq_none hdigit hminus, takeLiteralText?_eq_none hquote, hword]
    rfl
  rw [hname]
  exact .token (l := .name name) hblank htake (Nat.zero_le _) .nil

/-- A field that is looked up in a list of texts. -/
def memberText (quote : Char) (name : String) (vs : List String) : List Char :=
  name.toList ++ " in ".toList ++ listText quote vs

/-- The word of a membership, as it is read. -/
theorem lexes_in : Lexes ['i', 'n'] [.within] :=
  .token (l := .within) (by decide) rfl (by decide) .nil

/-- **The lexemes of a membership**: the field, the word, and the texts in brackets with commas
between them. -/
theorem lexes_memberText {quote : Char} (hquote : isQuote quote = true) {name : String}
    (hname : IsFieldName name) (vs : List String) :
    Lexes (memberText quote name vs) (.name name :: .within ::
      .mark .openList :: (commaSeparated (vs.map .text) ++ [.mark .closeList])) := by
  have htext : memberText quote name vs =
      name.toList ++ ' ' :: (['i', 'n'] ++ ' ' :: listText quote vs) := by
    simp [memberText]
  rw [htext]
  exact hname.lexes.append (by decide)
    (lexes_in.append (by decide) (lexes_listText hquote vs).space).space

/-- A field and a list make up a membership test. -/
theorem derives_member (name : String) (vs : List Value) :
    Derives maxDepth .disjunction (.name name :: .within ::
      .mark .openList :: (commaSeparated vs ++ [.mark .closeList]))
      (.member false (.field name) vs) := by
  have hnegation : Derives maxDepth .negation ([.name name] ++ .within ::
      (.mark .openList :: commaSeparated vs ++ [.mark .closeList]))
      (.member false (.field name) vs) := .positive (.within (.name name) (.plain vs))
  have hconjunction := derives_conjunction_iff.2 ⟨_, .part hnegation, rfl⟩
  exact derives_disjunction_iff.2 ⟨_, .part hconjunction, rfl⟩

/-! ## Reading and judging -/

/-- A membership has no blanks around it: it starts with a name and ends with a bracket. -/
theorem isTrimmed_memberText (quote : Char) {name : String} (hname : IsFieldName name)
    (vs : List String) : IsTrimmed (memberText quote name vs) := by
  obtain ⟨c, cs, hstart, hfirst, -⟩ := hname.start
  have hlast : memberText quote name vs = (name.toList ++ " in ".toList ++
      '[' :: [',', ' '].intercalate (vs.map (literalText quote))) ++ [']'] := by
    simp [memberText, listText]
  constructor
  · intro d hd
    rw [memberText, hstart] at hd
    obtain rfl : c = d := Option.some.inj hd
    exact (start_of_isNameStart hfirst).2.2.2
  · intro d hd
    rw [hlast, List.getLast?_concat] at hd
    rw [← Option.some.inj hd]
    decide

/-- A text is in a list of texts when it is one of them. -/
theorem holds_member_iff (name w : String) (vs : List String) :
    (member false (.field name) (vs.map .text)).holds [(name, .text w)] = true ↔ w ∈ vs := by
  have hequal : ∀ v : String, equal (some (.text w)) (some (.text v)) = (w == v) := by
    intro v
    simp [equal, Value.same]
  have hholds : (member false (.field name) (vs.map .text)).holds [(name, .text w)] =
      vs.any (w == ·) := by
    simp [holds, operand, Entries.get?_cons, List.any_map, Function.comp_def, hequal,
      Value.truthy]
  rw [hholds, List.any_beq, List.contains_iff_mem]

/-- **A field that is looked up in a list of literals** is read as such, when the text is not too
long. The items are the texts that the literals were written from, whatever these hold, and the
expression holds of a document exactly when its field is one of them. -/
theorem parseText_memberText {quote : Char} (hquote : isQuote quote = true) {name : String}
    (hname : IsFieldName name) (vs : List String)
    (hlength : Text.size (memberText quote name vs) ≤ maxLength) :
    parseText (String.ofList (memberText quote name vs)) =
        .ok (.member false (.field name) (vs.map .text)) ∧
      ∀ w, (member false (.field name) (vs.map .text)).holds [(name, .text w)] = true ↔
        w ∈ vs := by
  have hne : memberText quote name vs ≠ [] := by simp [memberText]
  exact ⟨parseText_of_derives (isTrimmed_memberText quote hname vs) hne
    (lexes_memberText hquote hname vs) (derives_member name _) hlength,
    fun w => holds_member_iff name w vs⟩

/-- Texts with quotes of both kinds, a run of backslashes, what ends a list, and a line break. -/
theorem parseText_memberText_quoted :
    parseText "state in ['it\\'s \"on\"', '\\\\\\\\', '], in\n', '']" =
        .ok (.member false (.field "state")
          [.text "it's \"on\"", .text "\\\\", .text "], in\n", .text ""]) ∧
      (member false (.field "state") [.text "it's \"on\"", .text "\\\\", .text "], in\n",
        .text ""]).holds [("state", .text "\\\\")] = true ∧
      (member false (.field "state") [.text "it's \"on\"", .text "\\\\", .text "], in\n",
        .text ""]).holds [("state", .text "\\")] = false := by
  have hname : IsFieldName "state" := ⟨⟨'s', "tate".toList, rfl, by decide, by decide⟩, by decide⟩
  have htext : String.ofList (memberText '\'' "state" ["it's \"on\"", "\\\\", "], in\n", ""]) =
      "state in ['it\\'s \"on\"', '\\\\\\\\', '], in\n', '']" := by decide
  have hquote : isQuote '\'' = true := by decide
  obtain ⟨hparse, hholds⟩ := parseText_memberText hquote hname
    ["it's \"on\"", "\\\\", "], in\n", ""] (by decide)
  rw [htext] at hparse
  refine ⟨hparse, (hholds _).2 (by decide), ?_⟩
  rw [← Bool.not_eq_true]
  exact fun h => absurd ((hholds _).1 h) (by decide)

end FormScaffold.Expression
