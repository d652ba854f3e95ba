import FormScaffold.Proofs.Expression.Reading
import FormScaffold.Proofs.Text.Words
import Mathlib.Data.List.Find
import Mathlib.Data.List.TakeDrop

/-! # The tokens of texts put together

No token goes on with a space or a closing bracket, so the tokens of a text stay what they are when
one of these stands behind it.

* `takeLexeme?_append` — one token in front of more text;
* **`Lexes cs us`** — the text has tokens with these terminals, wherever it stands;
* **`Lexes.append`** — texts one behind the other have the tokens of both;
* **`parseText_eq_ok_iff_derives`** — what it takes for a text to be read. -/

namespace FormScaffold.Expression

open Text

/-! ## One token -/

/-- The characters that no token goes on with. -/
def isStop (c : Char) : Bool := c == ' ' || c == ')'

/-- What was read from the start of a text, when more text stands behind it. -/
def before {α : Type} (tail : List Char) (r : α × List Char) : α × List Char := (r.1, r.2 ++ tail)

/-- The characters that end every word and number are the blank and the closing bracket. -/
theorem isStop_iff {c : Char} : isStop c = true ↔ c = ' ' ∨ c = ')' := by
  simp [isStop]

/-- A run of characters ends at a stop, and what follows stays as it is. -/
theorem span_append_stop {p : Char → Bool} {c : Char} (hc : p c = false) (cs rest : List Char) :
    (cs ++ c :: rest).span p = before (c :: rest) (cs.span p) := by
  simp only [List.span_eq_takeWhile_dropWhile, before]
  induction cs with
  | nil => simp [hc]
  | cons d cs ih => by_cases hd : p d <;> simp_all

/-- A power without a sign is its digits. -/
theorem takePower?_of_unsigned {cs : List Char} (h : ∀ d ∈ cs.head?, d ≠ '-' ∧ d ≠ '+') :
    takePower? cs = (takeDigits? cs).map fun r => ((digitsValue r.1 : Int), r.2) := by
  unfold takePower?
  split
  · exact absurd rfl (h _ rfl).1
  · exact absurd rfl (h _ rfl).2
  · rfl

section Stop

variable {c : Char} (hc : isStop c = true) (rest : List Char)
include hc

/-- A stop is no digit of any script. -/
theorem isDigit_of_isStop : isDigit c = false := by
  rcases isStop_iff.1 hc with rfl | rfl <;> decide

/-- Digits are taken up to a stop, however the text goes on. -/
theorem takeDigits?_append (cs : List Char) :
    takeDigits? (cs ++ c :: rest) = (takeDigits? cs).map (before (c :: rest)) := by
  unfold takeDigits?
  rw [span_append_stop (isDigit_of_isStop hc)]
  rcases cs.span isDigit with ⟨_ | ⟨d, ds⟩, left⟩ <;> rfl

/-- A fraction is taken up to a stop, however the text goes on. -/
theorem takeFraction_append (cs : List Char) :
    takeFraction (cs ++ c :: rest) = before (c :: rest) (takeFraction cs) := by
  have hpoint : c ≠ '.' := by
    rcases isStop_iff.1 hc with rfl | rfl <;> decide
  unfold takeFraction
  cases cs with
  | nil => simp [before, hpoint]
  | cons d cs =>
    by_cases hd : d = '.'
    · subst hd
      simp only [List.cons_append, takeDigits?_append hc]
      cases takeDigits? cs <;> rfl
    · simp [before, hd]

/-- A power is taken up to a stop, however the text goes on. -/
theorem takePower?_append (cs : List Char) :
    takePower? (cs ++ c :: rest) = (takePower? cs).map (before (c :: rest)) := by
  -- With a sign the digits start one character later; the stop itself is no sign.
  by_cases hsign : ∃ d ds, cs = d :: ds ∧ (d = '-' ∨ d = '+')
  · obtain ⟨d, ds, rfl, rfl | rfl⟩ := hsign
    all_goals
      simp only [takePower?, List.cons_append, takeDigits?_append hc, Option.map_map]
      rfl
  · have hstop : c ≠ '-' ∧ c ≠ '+' := by
      rcases isStop_iff.1 hc with rfl | rfl <;> decide
    have hhead : ∀ d ∈ cs.head?, d ≠ '-' ∧ d ≠ '+' := by
      cases cs with
      | nil => simp
      | cons d ds => simpa using hsign
    have happend : ∀ d ∈ (cs ++ c :: rest).head?, d ≠ '-' ∧ d ≠ '+' := by
      cases cs with
      | nil => simpa using hstop
      | cons d ds => exact hhead
    rw [takePower?_of_unsigned hhead, takePower?_of_unsigned happend, takeDigits?_append hc,
      Option.map_map, Option.map_map]
    rfl

/-- An exponent is taken up to a stop, however the text goes on. -/
theorem takeExponent_append (cs : List Char) :
    takeExponent (cs ++ c :: rest) = before (c :: rest) (takeExponent cs) := by
  have hletter : (c == 'e' || c == 'E') = false := by
    rcases isStop_iff.1 hc with rfl | rfl <;> decide
  unfold takeExponent
  cases cs with
  | nil => simp [before, hletter]
  | cons d cs =>
    simp only [List.cons_append, takePower?_append hc]
    cases d == 'e' || d == 'E' with
    | false => rfl
    | true => cases takePower? cs <;> rfl

/-- A number without its sign is taken up to a stop, however the text goes on. -/
theorem takeUnsigned?_append (negative : Bool) (cs : List Char) :
    takeUnsigned? negative (cs ++ c :: rest) =
      (takeUnsigned? negative cs).map (before (c :: rest)) := by
  unfold takeUnsigned?
  rw [takeDigits?_append hc]
  cases takeDigits? cs with
  | none => rfl
  | some r =>
    simp only [Option.map_some, before, Option.bind_eq_bind, Option.bind_some,
      takeFraction_append hc, takeExponent_append hc]
    split <;> rfl

/-- A number is taken up to a stop, however the text goes on. -/
theorem takeNumber?_append (cs : List Char) :
    takeNumber? (cs ++ c :: rest) = (takeNumber? cs).map (before (c :: rest)) := by
  have hminus : c ≠ '-' := by
    rcases isStop_iff.1 hc with rfl | rfl <;> decide
  unfold takeNumber?
  cases cs with
  | nil =>
    have hnone := takeUnsigned?_append hc rest false []
    simp only [List.nil_append] at hnone
    simp [hminus, hnone]
  | cons d cs =>
    by_cases hd : d = '-'
    · subst hd
      exact takeUnsigned?_append hc rest true cs
    · have happend := takeUnsigned?_append hc rest false (d :: cs)
      simp only [List.cons_append] at happend
      simp [hd, happend]

/-- A word is taken up to a stop, however the text goes on. The text must have begun before the
stop. -/
theorem takeWord?_append {cs : List Char} (hne : cs ≠ []) :
    takeWord? (cs ++ c :: rest) = (takeWord? cs).map (before (c :: rest)) := by
  have hname : isNameChar c = false := by
    rcases isStop_iff.1 hc with rfl | rfl <;> decide
  obtain ⟨d, cs, rfl⟩ := List.exists_cons_of_ne_nil hne
  unfold takeWord?
  simp only [List.cons_append, span_append_stop hname]
  split <;> rfl

omit hc in
/-- A word without the stop in it does not reach behind the stop. -/
theorem isPrefixOf_append {word : List Char} (hword : c ∉ word.tail) {cs : List Char}
    (hne : cs ≠ []) : word.isPrefixOf (cs ++ c :: rest) = word.isPrefixOf cs := by
  rw [Bool.eq_iff_iff, List.isPrefixOf_iff_prefix, List.isPrefixOf_iff_prefix]
  refine ⟨fun h => ?_, fun h => h.trans (List.prefix_append _ _)⟩
  rcases List.prefix_or_prefix_of_prefix h (List.prefix_append cs (c :: rest)) with h' | ⟨tail, rfl⟩
  · exact h'
  -- What reached behind the stop would hold it.
  · obtain ⟨d, cs, rfl⟩ := List.exists_cons_of_ne_nil hne
    cases tail with
    | nil => simp
    | cons e tail =>
      obtain ⟨rfl, -⟩ := List.cons_prefix_cons.1 ((List.prefix_append_right_inj _).1 h)
      exact absurd (List.mem_append_right cs List.mem_cons_self) hword

/-- No sign goes on with a stop: only its first character can be one. -/
theorem stop_notMem_signs : ∀ s ∈ signs, c ∉ s.1.toList.tail := by
  rcases isStop_iff.1 hc with rfl | rfl <;> decide

/-- A sign is taken in front of a stop as it is without it, since no longer sign is made by the
stop. -/
theorem takeSign?_append {cs left : List Char} (hne : cs ≠ []) {l : Lexeme}
    (h : takeSign? cs = some (l, left)) :
    takeSign? (cs ++ c :: rest) = some (l, left ++ c :: rest) := by
  obtain ⟨s, hs, heq⟩ := Option.map_eq_some_iff.1 h
  obtain ⟨rfl, rfl⟩ := Prod.mk.inj heq
  have hprefix : s.1.toList <+: cs := by
    simpa using List.find?_some hs
  have hfind : signs.find? (fun s => s.1.toList.isPrefixOf (cs ++ c :: rest)) = some s := by
    rw [← hs]
    exact List.find?_congr fun s hs =>
      isPrefixOf_append rest (stop_notMem_signs hc s hs) hne
  rw [takeSign?, hfind, Option.map_some, List.drop_append_of_le_length hprefix.length_le]

end Stop

/-- A character of a text literal that is no backslash. -/
theorem takeText?_cons {quote c : Char} (hc : c ≠ '\\') (cs : List Char) :
    takeText? quote (c :: cs) =
      if c == quote then some ([], cs)
      else (takeText? quote cs).map fun r => (c :: r.1, r.2) := by
  have hback : (c == '\\') = false := beq_eq_false_iff_ne.2 hc
  rw [takeText?]
  · rw [hback, if_neg Bool.false_ne_true]
  · exact fun _ _ h _ => hc h

/-- A text literal ends at its quote, whatever follows. -/
theorem takeText?_append {quote : Char} (hquote : quote ≠ '\\') {cs : List Char}
    {r : List Char × List Char} (h : takeText? quote cs = some r) (tail : List Char) :
    takeText? quote (cs ++ tail) = some (before tail r) := by
  induction cs using takeText?.induct quote generalizing r with
  | case1 => simp [takeText?] at h
  | case2 c rest hc => simp [takeText?, hc] at h
  | case3 c rest hc ih =>
    rw [takeText?, if_neg hc] at h
    obtain ⟨r', hr', rfl⟩ := Option.map_eq_some_iff.1 h
    rw [List.cons_append, List.cons_append, takeText?, if_neg hc, ih hr']
    rfl
  | case4 c rest hescape hc =>
    have hback : c ≠ '\\' := beq_iff_eq.1 hc ▸ hquote
    rw [takeText?_cons hback, if_pos hc] at h
    rw [List.cons_append, takeText?_cons hback, if_pos hc, ← Option.some.inj h]
    rfl
  -- A backslash with nothing behind it ends no literal.
  | case5 c rest hescape hc hback =>
    rw [takeText?, if_neg hc, if_pos hback] at h
    · exact absurd h (by simp)
    · exact hescape
  | case6 c rest hescape hc hback ih =>
    have hback' : c ≠ '\\' := by simpa using hback
    rw [takeText?_cons hback', if_neg hc] at h
    obtain ⟨r', hr', rfl⟩ := Option.map_eq_some_iff.1 h
    rw [List.cons_append, takeText?_cons hback', if_neg hc, ih hr']
    rfl

/-- A text in quotes is taken up to its closing quote, whatever follows. -/
theorem takeLiteralText?_append {cs : List Char} {r : Lexeme × List Char}
    (h : takeLiteralText? cs = some r) (tail : List Char) :
    takeLiteralText? (cs ++ tail) = some (before tail r) := by
  unfold takeLiteralText? at h
  split at h
  · rename_i c rest
    split at h
    · rename_i hquote
      have hback : c ≠ '\\' := by
        rintro rfl
        exact absurd hquote (by decide)
      obtain ⟨r', hr', rfl⟩ := Option.map_eq_some_iff.1 h
      rw [List.cons_append, takeLiteralText?, if_pos hquote, takeText?_append hback hr']
      rfl
    · exact absurd h (by simp)
  · exact absurd h (by simp)

/-- Whether a text literal starts with the character. -/
def isQuote (c : Char) : Bool := c == '\'' || c == '"'

/-- Only a quote starts a text literal. -/
theorem takeLiteralText?_eq_none {c : Char} (hc : isQuote c = false) (cs : List Char) :
    takeLiteralText? (c :: cs) = none := if_neg (ne_true_of_eq_false hc)

/-- Neither a word nor a sign starts with a quote. -/
theorem isQuote_of_takeWord? {c : Char} {cs : List Char} {r : Lexeme × List Char}
    (h : takeWord? (c :: cs) = some r) : isQuote c = false := by
  by_cases hstart : isNameStart c = true
  · rw [← Bool.not_eq_true, isQuote, Bool.or_eq_true, beq_iff_eq, beq_iff_eq]
    rintro (rfl | rfl)
    · exact absurd hstart (by decide)
    · exact absurd hstart (by decide)
  · rw [takeWord?, if_neg hstart] at h
    exact absurd h (by simp)

/-- No sign starts with a quote. -/
theorem isQuote_of_takeSign? {c : Char} {cs : List Char} {r : Lexeme × List Char}
    (h : takeSign? (c :: cs) = some r) : isQuote c = false := by
  have hsigns : ∀ s ∈ signs, ∀ d ∈ s.1.toList.head?, isQuote d = false := by decide
  have hne : ∀ s ∈ signs, s.1.toList ≠ [] := by decide
  obtain ⟨s, hs, -⟩ := Option.map_eq_some_iff.1 h
  have hmem : s ∈ signs := List.mem_of_find?_eq_some hs
  have hprefix : s.1.toList <+: c :: cs := by
    simpa using List.find?_some hs
  obtain ⟨d, ds, hd⟩ := List.exists_cons_of_ne_nil (hne s hmem)
  rw [hd] at hprefix
  obtain ⟨rfl, -⟩ := List.cons_prefix_cons.1 hprefix
  exact hsigns s hmem d (by rw [hd]; rfl)

/-- **A token in front of a stop does not depend on what follows.** The readers of words, numbers
and signs take as much as they can, and none of them goes on with a stop; a text in quotes ends at
its own quote. -/
theorem takeLexeme?_append {c : Char} (hc : isStop c = true) (rest : List Char)
    {cs : List Char} (hne : cs ≠ []) {r : Lexeme × List Char} (h : takeLexeme? cs = some r) :
    takeLexeme? (cs ++ c :: rest) = some (before (c :: rest) r) := by
  unfold takeLexeme? at h ⊢
  simp only [Option.orElse_eq_orElse, Option.orElse_eq_or, Option.or_eq_some_iff] at h ⊢
  rw [takeNumber?_append hc, takeWord?_append hc rest hne]
  obtain ⟨d, ds, rfl⟩ := List.exists_cons_of_ne_nil hne
  rcases h with h | ⟨hnumber, h | ⟨htext, h | ⟨hword, h⟩⟩⟩
  · exact .inl (by rw [h]; rfl)
  · exact .inr ⟨by rw [hnumber]; rfl, .inl (takeLiteralText?_append h _)⟩
  -- A literal that does not end in the text could end behind it, but none starts here.
  · exact .inr ⟨by rw [hnumber]; rfl, .inr ⟨takeLiteralText?_eq_none (isQuote_of_takeWord? h) _,
      .inl (by rw [h]; rfl)⟩⟩
  · exact .inr ⟨by rw [hnumber]; rfl, .inr ⟨takeLiteralText?_eq_none (isQuote_of_takeSign? h) _,
      .inr ⟨by rw [hword]; rfl, takeSign?_append hc rest hne h⟩⟩⟩

/-! ## All tokens -/

/-- **The text has tokens with the terminals.** -/
inductive Lexes : List Char → List Terminal → Prop where
  | nil : Lexes [] []
  | blank {c : Char} {cs : List Char} {us : List Terminal} (hc : isBlank c = true)
    (h : Lexes cs us) : Lexes (c :: cs) us
  | token {c : Char} {cs left : List Char} {l : Lexeme} {us : List Terminal}
    (hc : isBlank c = false) (htake : takeLexeme? (c :: cs) = some (l, left))
    (hleft : left.length ≤ cs.length) (h : Lexes left us) : Lexes (c :: cs) (l.terminal :: us)

/-- Tokens are found wherever the text stands. -/
theorem Lexes.exists_scanTokens {cs : List Char} {us : List Terminal} (h : Lexes cs us) (i : Nat) :
    ∃ ts, scanTokens i cs = .ok ts ∧ terminals ts = us := by
  induction h generalizing i with
  | nil => exact ⟨[], by rw [scanTokens], rfl⟩
  | blank hc h ih =>
    obtain ⟨ts, hts, hus⟩ := ih (i + 1)
    exact ⟨ts, by rw [scanTokens, if_pos hc, hts], hus⟩
  | @token c cs left l us hc htake hleft h ih =>
    obtain ⟨ts, hts, hus⟩ := ih (i + ((c :: cs).length - left.length))
    refine ⟨⟨l, i⟩ :: ts, ?_, by rw [terminals_cons, hus]; rfl⟩
    rw [scanTokens, if_neg (ne_true_of_eq_false hc), htake]
    simp only
    rw [if_pos hleft, hts]
    rfl

/-- What was scanned has its tokens. -/
theorem lexes_of_scanTokens {i : Nat} {cs : List Char} {ts : List Token}
    (h : scanTokens i cs = .ok ts) : Lexes cs (terminals ts) := by
  fun_induction scanTokens i cs generalizing ts with
  | case1 =>
    rw [← Except.ok.inj h]
    exact .nil
  | case2 i c rest hc ih => exact .blank hc (ih h)
  | case3 => exact absurd h (by simp)
  | case4 i c rest hc l left htake hleft ih =>
    cases hlater : scanTokens (i + ((c :: rest).length - left.length)) left with
    | error e =>
      rw [hlater] at h
      exact absurd h (by simp [Except.map])
    | ok later =>
      rw [hlater] at h
      rw [← Except.ok.inj h]
      exact .token (by simpa using hc) htake hleft (ih hlater)
  | case5 => exact absurd h (by simp)

/-- **The tokens of texts one behind the other**, when the second one starts with a stop. So texts
can be read apart and put together, which is how the texts of whole expressions are read below. -/
theorem Lexes.append {cs : List Char} {us : List Terminal} (h : Lexes cs us) {c : Char}
    (hstop : isStop c = true) {rest : List Char} {vs : List Terminal}
    (hrest : Lexes (c :: rest) vs) :
    Lexes (cs ++ c :: rest) (us ++ vs) := by
  induction h with
  | nil => exact hrest
  | blank hc h ih => exact .blank hc ih
  | @token d ds left l us hc htake hleft h ih =>
    have htake' := takeLexeme?_append hstop rest (List.cons_ne_nil d ds) htake
    have hleft' : (left ++ c :: rest).length ≤ (ds ++ c :: rest).length := by
      rw [List.length_append, List.length_append]
      exact Nat.add_le_add_right hleft _
    exact .token hc htake' hleft' ih

/-! ## Brackets and words -/

section Marks

variable {cs : List Char} {us : List Terminal} (h : Lexes cs us)
include h

/-- A blank in front of a text adds no lexeme. -/
theorem Lexes.space : Lexes (' ' :: cs) us := .blank (c := ' ') (by decide) h

/-- An opening bracket is a lexeme of its own, whatever follows. -/
theorem Lexes.openGroup : Lexes ('(' :: cs) (.mark .openGroup :: us) :=
  .token (c := '(') (l := .mark .openGroup) (by decide) rfl (Nat.le_refl _) h

/-- A closing bracket is a lexeme of its own, whatever follows. -/
theorem Lexes.closeGroup : Lexes (')' :: cs) (.mark .closeGroup :: us) :=
  .token (c := ')') (l := .mark .closeGroup) (by decide) rfl (Nat.le_refl _) h

end Marks

/-- The word of a disjunction, as it is read. -/
theorem lexes_or : Lexes ['o', 'r'] [.disj] :=
  .token (l := .disj "or") (by decide) rfl (by decide) .nil

/-- The word of a conjunction, as it is read. -/
theorem lexes_and : Lexes ['a', 'n', 'd'] [.conj] :=
  .token (l := .conj "and") (by decide) rfl (by decide) .nil

/-- The word of a negation, as it is read. -/
theorem lexes_not : Lexes ['n', 'o', 't'] [.neg] :=
  .token (l := .neg "not") (by decide) rfl (by decide) .nil

/-! ## Whole texts -/

/-- **What it takes for a text to be read.** It is not too long, its tokens can be read, and they
make up the expression. -/
theorem parseText_eq_ok {s : String} {e : Expression} :
    parseText s = .ok e ↔ normalize s.toList ≠ [] ∧ Text.size (normalize s.toList) ≤ maxLength ∧
      ∃ ts, tokens (normalize s.toList) = .ok ts ∧ ofTokens ts = .ok e := by
  unfold parseText
  generalize normalize s.toList = text
  simp only [List.isEmpty_iff]
  by_cases hne : text = []
  · simp [hne]
  · by_cases hlong : Text.size text > maxLength
    · simp [hne, hlong]
    · simp only [hne, hlong, if_false, not_false_eq_true, true_and, bind_eq_ok,
        Nat.le_of_not_gt hlong, ne_eq]
      refine exists_congr fun ts => and_congr_right fun _ => ?_
      cases ofTokens ts with
      | ok e' => simp
      | error r => simp

/-- The tokens of a text are those of a scan from its start. -/
theorem tokens_eq_ok {text : List Char} {ts : List Token} :
    tokens text = .ok ts ↔ scanTokens 0 text = .ok ts := by
  unfold tokens
  cases scanTokens 0 text with
  | ok ts' => simp
  | error p => simp

/-- **A text is read as the expression that its terminals make up.** The offsets of the tokens only
matter for messages. -/
theorem parseText_eq_ok_iff_derives {s : String} {e : Expression} :
    parseText s = .ok e ↔ normalize s.toList ≠ [] ∧ Text.size (normalize s.toList) ≤ maxLength ∧
      ∃ us, Lexes (normalize s.toList) us ∧ Derives maxDepth .disjunction us e := by
  rw [parseText_eq_ok]
  refine and_congr_right fun _ => and_congr_right fun _ => ⟨?_, ?_⟩
  · rintro ⟨ts, hts, he⟩
    exact ⟨_, lexes_of_scanTokens (tokens_eq_ok.1 hts), ofTokens_eq_ok.1 he⟩
  · rintro ⟨us, hlexes, hderives⟩
    obtain ⟨ts, hts, rfl⟩ := hlexes.exists_scanTokens 0
    exact ⟨ts, tokens_eq_ok.2 hts, ofTokens_eq_ok.2 hderives⟩

/-- A text that is normal is read as it is written: when it is not too long, its own tokens decide.
-/
theorem parseText_of_lexes {cs : List Char} {us : List Terminal} (hnormal : normalize cs = cs)
    (hne : cs ≠ []) (h : Lexes cs us) (hlength : Text.size cs ≤ maxLength) :
    ∃ ts, terminals ts = us ∧
      parseText (String.ofList cs) = (ofTokens ts).mapError (·.toError cs) := by
  obtain ⟨ts, hts, hus⟩ := h.exists_scanTokens 0
  refine ⟨ts, hus, ?_⟩
  have hempty : cs.isEmpty = false := List.isEmpty_eq_false_iff.2 hne
  rw [parseText, String.toList_ofList, hnormal]
  simp only [hempty, Bool.false_eq_true, if_false, Nat.not_lt.2 hlength, tokens_eq_ok.2 hts,
    bind, Except.bind]
  cases ofTokens ts with
  | ok e => rfl
  | error r => rfl

/-- A normal text that is too long is refused for that. -/
theorem parseText_of_long {cs : List Char} (hnormal : normalize cs = cs)
    (hlength : maxLength < Text.size cs) :
    ∃ err, parseText (String.ofList cs) = .error err ∧ err.cause = .tooLong := by
  have hempty : cs.isEmpty = false := by
    rw [List.isEmpty_eq_false_iff]
    rintro rfl
    exact absurd hlength (by decide)
  rw [parseText, String.toList_ofList, hnormal]
  simp only [hempty, Bool.false_eq_true, if_false, gt_iff_lt, if_pos hlength]
  exact ⟨_, rfl, rfl⟩

/-- What was read was trimmed. -/
theorem isTrimmed_normalize (cs : List Char) : IsTrimmed (normalize cs) := by
  unfold normalize
  simp only
  split
  · exact isTrimmed_trim _
  · exact isTrimmed_trim _

/-- A text without blanks around it and without the word in front of expressions is left as it is.
-/
theorem normalize_eq_self {cs : List Char} (h : IsTrimmed cs)
    (hword : ("eval:".toList).isPrefixOf cs = false) : normalize cs = cs := by
  rw [normalize, h.trim_eq]
  simp only [hword, Bool.false_eq_true, if_false]

/-- The word `eval:` is no part of an expression. -/
theorem eval_notPrefix_of_lexes {cs : List Char} {us : List Terminal} (h : Lexes cs us) :
    ("eval:".toList).isPrefixOf cs = false := by
  rw [← Bool.not_eq_true, List.isPrefixOf_iff_prefix]
  rintro ⟨rest, rfl⟩
  have hword : takeLexeme? ('e' :: 'v' :: 'a' :: 'l' :: ':' :: rest) =
      some (.name "eval", ':' :: rest) := rfl
  have hcolon : takeLexeme? (':' :: rest) = none := rfl
  -- The word is a name, and no token starts with the colon behind it.
  rcases h with _ | ⟨hc, -⟩ | ⟨-, htake, -, h⟩
  · exact absurd hc (by decide)
  · obtain ⟨-, rfl⟩ := Prod.mk.inj (Option.some.inj (hword.symm.trans htake))
    rcases h with _ | ⟨hc, -⟩ | ⟨-, htake, -, -⟩
    · exact absurd hc (by decide)
    · exact absurd (hcolon.symm.trans htake) (by simp)

end FormScaffold.Expression
