import FormScaffold.Json.Token
import FormScaffold.Proofs.Json.Printing
import Mathlib.Data.List.TakeDrop
import Mathlib.Data.List.TakeWhile
import Mathlib.Data.Nat.Init

/-! # Scanning what was written

* **`takeText_textLiteral`** — a text literal is read as its text, however it is escaped. -/

namespace FormScaffold.Json

open Text

/-! ## Text literals -/

/-- A hexadecimal digit is read as the value that it was written for. -/
theorem hexValue?_hexDigit : ∀ n < 16, hexValue? (hexDigit n) = some n := by decide

/-- An escape by number is read as the number. -/
theorem takeText_unicodeEscape {n : Nat} (h : n < 0x10000) (pending : Option Nat)
    (rest : List Char) :
    takeText pending (unicodeEscape n ++ rest) =
      match pending with
      | some high =>
        if isLow n then
          takeText.add [Char.ofNat (0x10000 + (high - 0xD800) * 0x400 + (n - 0xDC00))]
            (takeText none rest)
        else if isHigh n then takeText.add (takeText.flush pending) (takeText (some n) rest)
        else takeText.add (takeText.flush pending ++ spellCode n) (takeText none rest)
      | none =>
        if isHigh n then takeText (some n) rest
        else takeText.add (spellCode n) (takeText none rest) := by
  have hhex : hex4? (hexDigit (n / 16 / 16 / 16 % 16)) (hexDigit (n / 16 / 16 % 16))
      (hexDigit (n / 16 % 16)) (hexDigit (n % 16)) = some n := by
    have hdigit := fun m : Nat => hexValue?_hexDigit (m % 16) (Nat.mod_lt m (by decide))
    simp only [hex4?, hdigit, Option.bind_eq_bind, Option.bind_some, Option.pure_def]
    congr 1
    omega
  simp only [unicodeEscape, hexDigits, List.nil_append, List.cons_append]
  cases pending <;> simp only [takeText.eq_3, hhex]

/-- An escape of one letter is read as its character. -/
theorem takeText_letter {e c : Char} (he : e ≠ 'u') (h : unescape? e = some c)
    (rest : List Char) :
    takeText none ('\\' :: e :: rest) = takeText.add [c] (takeText none rest) := by
  rw [takeText.eq_4 none e rest fun _ _ _ _ _ hu => absurd hu he, h]
  rfl

/-- Below the halves of surrogate pairs a code point is spelled by its own character. -/
theorem spellCode_toNat {c : Char} (h : c.toNat < 0xD800) : spellCode c.toNat = [c] := by
  have hhalf : isHalf c.toNat = false := by
    simp only [isHalf, Bool.and_eq_false_iff, decide_eq_false_iff_not]
    omega
  have hmark : c ≠ mark := by
    rintro rfl
    exact absurd h (by decide)
  rw [spellCode, if_neg (by simp [hhalf]), Char.ofNat_toNat, spellChar,
    if_neg (by simpa using hmark)]

/-- All that a style escapes by number is below the halves of surrogate pairs. -/
theorem toNat_lt_of_covers {escaping : Escaping} {c : Char}
    (h : (decide (c.toNat < 0x20) || escaping.covers c) = true) : c.toNat < 0xD800 := by
  cases escaping <;> simp [Escaping.covers] at h <;> omega

/-- A character is read from its escape by number. -/
theorem takeText_number {c : Char} (h : c.toNat < 0xD800) (rest : List Char) :
    takeText none (unicodeEscape c.toNat ++ rest) = takeText.add [c] (takeText none rest) := by
  have hhigh : isHigh c.toNat = false := by
    simp only [isHigh, Bool.and_eq_false_iff, decide_eq_false_iff_not]
    omega
  rw [takeText_unicodeEscape (by omega)]
  simp only [hhigh, Bool.false_eq_true, if_false, spellCode_toNat h]

/-- A character is read from its escape. -/
theorem takeText_escapeChar (escaping : Escaping) (c : Char) (rest : List Char) :
    takeText none (escapeChar escaping c ++ rest) = takeText.add [c] (takeText none rest) := by
  have hof : ∀ n, (c.toNat == n) = true → c = Char.ofNat n := by
    intro n hn
    rw [← beq_iff_eq.1 hn, Char.ofNat_toNat]
  unfold escapeChar
  -- The characters with an escape letter, those with a name of their own first.
  iterate 5
    split
    · rename_i h
      obtain rfl := beq_iff_eq.1 h
      exact takeText_letter (by decide) rfl rest
  iterate 2
    split
    · rename_i h
      obtain rfl := hof _ h
      exact takeText_letter (by decide) rfl rest
  split
  · rename_i hnumber
    exact takeText_number (toNat_lt_of_covers hnumber) rest
  · rename_i hquote hbackslash _ _ _ _ _ hplain
    have hcontrol : ¬c.toNat < 0x20 := by
      intro hlt
      simp [hlt] at hplain
    rw [List.singleton_append, takeText.eq_5 none c rest (by simpa using hquote)
      (fun _ _ _ _ _ h => absurd h (by simpa using hbackslash))
      (fun _ _ h => absurd h (by simpa using hbackslash)), if_neg (by simp_all)]
    rfl

/-- **A text literal is read as its text**, however it is escaped. Each character is read from its
own escape, or from itself. -/
theorem takeText_textLiteral (escaping : Escaping) (cs rest : List Char) :
    takeText none (cs.flatMap (escapeChar escaping) ++ '"' :: rest) = some (cs, rest) := by
  induction cs with
  | nil => rfl
  | cons c cs ih =>
    rw [List.flatMap_cons, List.append_assoc, takeText_escapeChar, ih]
    rfl

/-! ## Numbers -/

/-- What cannot go on with a number stands at the start. -/
def Delimits (rest : List Char) : Prop :=
  ∀ c ∈ rest.head?, isAsciiDigit c = false ∧ c ≠ '.' ∧ c ≠ 'e' ∧ c ≠ 'E'

/-- The end of the text delimits a number. -/
theorem delimits_nil : Delimits [] := by simp [Delimits]

/-- A number ends in front of every character that could not continue it: no digit, no point and no
letter of an exponent. -/
theorem delimits_cons {c : Char} {rest : List Char} :
    Delimits (c :: rest) ↔ isAsciiDigit c = false ∧ c ≠ '.' ∧ c ≠ 'e' ∧ c ≠ 'E' := by
  simp [Delimits]

section Number

variable {rest : List Char} (hrest : Delimits rest)
include hrest

/-- Digits end where a number ends. -/
theorem span_append (cs : List Char) :
    (cs ++ rest).span isAsciiDigit =
      ((cs.span isAsciiDigit).1, (cs.span isAsciiDigit).2 ++ rest) := by
  simp only [List.span_eq_takeWhile_dropWhile]
  induction cs with
  | nil =>
    cases rest with
    | nil => rfl
    | cons c rest => simp [(delimits_cons.1 hrest).1]
  | cons c cs ih =>
    cases hc : isAsciiDigit c with
    | false => simp [hc]
    | true =>
      obtain ⟨htake, hdrop⟩ := Prod.mk.inj ih
      simp only [List.cons_append, List.takeWhile_cons, List.dropWhile_cons, hc, if_true, htake,
        hdrop]

/-- The whole part of a number is taken whatever delimiter follows, as long as there is a whole
part. -/
theorem takeWhole_append {cs : List Char} (hne : (takeWhole cs).1 ≠ []) :
    takeWhole (cs ++ rest) = ((takeWhole cs).1, (takeWhole cs).2 ++ rest) := by
  cases cs with
  | nil => exact absurd rfl hne
  | cons c cs =>
    by_cases hc : c = '0'
    · subst hc
      rfl
    · have hzero : ∀ cs' left, c :: cs' = '0' :: left → False := fun _ _ h =>
        hc (List.cons.inj h).1
      rw [List.cons_append, takeWhole.eq_2 _ (hzero _), takeWhole.eq_2 _ (hzero _),
        ← List.cons_append, span_append hrest]

/-- The digits behind a point are taken whatever delimiter follows. -/
theorem takePoint_append (cs : List Char) :
    takePoint (cs ++ rest) = ((takePoint cs).1, (takePoint cs).2 ++ rest) := by
  cases cs with
  | nil =>
    rw [List.nil_append, takePoint.eq_2 rest]
    · rfl
    · rintro c left rfl
      exact (delimits_cons.1 hrest).2.1 rfl
  | cons c cs =>
    by_cases hc : c = '.'
    · subst hc
      cases cs with
      | nil =>
        cases rest with
        | nil => rfl
        | cons c rest =>
          rw [List.singleton_append, takePoint.eq_1, if_neg (by simp [(delimits_cons.1 hrest).1])]
          rfl
      | cons d cs =>
        rw [List.cons_append, List.cons_append, takePoint.eq_1, takePoint.eq_1]
        split
        · rw [← List.cons_append, span_append hrest]
        · rfl
    · -- Without a point nothing is taken from either text.
      have hpoint : ∀ cs' d left, c :: cs' = '.' :: d :: left → False := fun _ _ _ h =>
        hc (List.cons.inj h).1
      rw [List.cons_append, takePoint.eq_2 _ (hpoint _), takePoint.eq_2 _ (hpoint _)]
      rfl

/-- A power that ends its text is read the same way when the text does not go on with it. -/
theorem takePower_append {cs : List Char} {negative : Bool} {ds : List Char}
    (h : takePower cs = some (negative, ds, [])) :
    takePower (cs ++ rest) = some (negative, ds, rest) := by
  -- Behind a sign, or at once, there are digits up to the end.
  have hdigits : ∀ {sign : Bool} {d : Char} {cs : List Char},
      (if isAsciiDigit d then some (sign, (d :: cs).span isAsciiDigit) else none) =
        some (negative, ds, []) →
      (if isAsciiDigit d then some (sign, (d :: (cs ++ rest)).span isAsciiDigit) else none) =
        some (negative, ds, rest) := by
    intro sign d cs h
    split at h
    · rename_i hd
      obtain ⟨rfl, hspan⟩ := Prod.mk.inj (Option.some.inj h)
      rw [if_pos hd, ← List.cons_append, span_append hrest, hspan]
      rfl
    · exact absurd h (by simp)
  unfold takePower at h
  split at h
  · exact hdigits h
  · exact hdigits h
  · rename_i c cs hminus hplus
    have hc : isAsciiDigit c = true := by
      by_contra hc
      exact absurd h (by simp [hc])
    rw [List.cons_append, takePower.eq_3]
    · exact hdigits h
    · rintro _ _ rfl
      exact absurd hc (by decide)
    · rintro _ _ rfl
      exact absurd hc (by decide)
  · exact absurd h (by simp)

/-- An exponent that ends with the text is taken the same when a delimiter follows. -/
theorem takeExponent_append {cs : List Char} {n : Option Int} (h : takeExponent cs = (n, [])) :
    takeExponent (cs ++ rest) = (n, rest) := by
  cases cs with
  | nil =>
    obtain ⟨rfl, -⟩ := Prod.mk.inj h
    cases rest with
    | nil => rfl
    | cons c rest =>
      -- What delimits a number does not start an exponent.
      obtain ⟨-, -, he, hE⟩ := delimits_cons.1 hrest
      rw [List.nil_append, takeExponent, if_neg (by simp [he, hE])]
  | cons c cs =>
    rw [takeExponent] at h
    rw [List.cons_append, takeExponent]
    split at h
    · rename_i hc
      rw [if_pos hc]
      cases hpower : takePower cs with
      | none =>
        rw [hpower] at h
        exact absurd h (by simp)
      | some p =>
        obtain ⟨negative, ds, left⟩ := p
        rw [hpower] at h
        obtain ⟨rfl, rfl⟩ := Prod.mk.inj h
        rw [takePower_append hrest hpower]
    · exact absurd h (by simp)

/-- **A number that ends its text is read the same way when the text does not go on with it.** What
follows a number in a document is a comma, a closing mark, a line feed or nothing. -/
theorem takeNumber_append {negative : Bool} {cs : List Char} {t : Token}
    (h : takeNumber negative cs = some (t, [])) :
    takeNumber negative (cs ++ rest) = some (t, rest) := by
  unfold takeNumber at h
  cases hwhole : takeWhole cs with
  | mk whole afterWhole =>
    rw [hwhole] at h
    cases whole with
    | nil => exact absurd h (by simp)
    | cons d ds =>
      have hwhole' : takeWhole (cs ++ rest) = (d :: ds, afterWhole ++ rest) := by
        rw [takeWhole_append hrest (by simp [hwhole]), hwhole]
      simp only at h
      cases hexponent : takeExponent (takePoint afterWhole).2 with
      | mk power left =>
        rw [hexponent] at h
        -- The number has been taken to its end, so that nothing was left behind the exponent.
        obtain rfl : left = [] := by
          split at h
          · exact (Prod.mk.inj (Option.some.inj h)).2
          · exact (Prod.mk.inj (Option.some.inj h)).2
        unfold takeNumber
        simp only [hwhole', takePoint_append hrest, takeExponent_append hrest hexponent]
        split at h
        · rename_i hint
          rw [if_pos hint, (Prod.mk.inj (Option.some.inj h)).1]
        · rename_i hint
          rw [if_neg hint, (Prod.mk.inj (Option.some.inj h)).1]

end Number

/-- Every number starts with a digit, once its sign is taken away. -/
theorem exists_digit_of_takeNumber {negative : Bool} {cs : List Char} {r : Token × List Char}
    (h : takeNumber negative cs = some r) : ∃ d rest, cs = d :: rest ∧ isAsciiDigit d = true := by
  have hne : (takeWhole cs).1 ≠ [] := by
    intro hnil
    unfold takeNumber at h
    cases hwhole : takeWhole cs with
    | mk ds left =>
      rw [hwhole] at h hnil
      obtain rfl : ds = [] := hnil
      exact absurd h (by simp)
  cases cs with
  | nil => exact absurd rfl hne
  | cons d cs =>
    refine ⟨d, cs, rfl, ?_⟩
    by_contra hd
    refine hne ?_
    rw [takeWhole.eq_2, List.span_eq_takeWhile_dropWhile]
    · simp [hd]
    · rintro left heq
      obtain ⟨rfl, -⟩ := List.cons.inj heq
      exact hd (by decide)

/-! ## One token -/

/-- No mark and no word starts with a digit, nor with a minus and a digit. -/
theorem isAsciiDigit_of_mem_fixed : ∀ f ∈ fixed, f.1 ≠ [] ∧ f.1.head?.any isAsciiDigit = false ∧
    (f.1.head? = some '-' → f.1.tail ≠ [] ∧ f.1.tail.head?.any isAsciiDigit = false) := by
  decide

section Digit

variable {d : Char} (hd : isAsciiDigit d = true) (cs : List Char)
include hd

/-- A digit starts a number. -/
theorem take_digit : take (d :: cs) = takeNumber false (d :: cs) := by
  have hnone : fixed.find? (fun f => f.1.isPrefixOf (d :: cs)) = none := by
    refine List.find?_eq_none.2 fun f hf hprefix => ?_
    obtain ⟨hne, hdigit, -⟩ := isAsciiDigit_of_mem_fixed f hf
    obtain ⟨c, w, hw⟩ := List.exists_cons_of_ne_nil hne
    rw [hw] at hdigit hprefix
    obtain ⟨rfl, -⟩ := List.cons_prefix_cons.1 (List.isPrefixOf_iff_prefix.1 hprefix)
    exact absurd hd (by simpa using hdigit)
  unfold take
  rw [hnone]
  simp only
  split
  · rename_i heq
    obtain ⟨rfl, -⟩ := List.cons.inj heq
    exact absurd hd (by decide)
  · rename_i heq
    obtain ⟨rfl, -⟩ := List.cons.inj heq
    exact absurd hd (by decide)
  · rfl

/-- A minus and a digit start a number. -/
theorem take_minus : take ('-' :: d :: cs) = takeNumber true (d :: cs) := by
  have hnone : fixed.find? (fun f => f.1.isPrefixOf ('-' :: d :: cs)) = none := by
    refine List.find?_eq_none.2 fun f hf hprefix => ?_
    obtain ⟨hne, -, hminus⟩ := isAsciiDigit_of_mem_fixed f hf
    obtain ⟨c, w, hw⟩ := List.exists_cons_of_ne_nil hne
    rw [hw] at hminus hprefix
    obtain ⟨rfl, hrest⟩ := List.cons_prefix_cons.1 (List.isPrefixOf_iff_prefix.1 hprefix)
    obtain ⟨hne, hdigit⟩ := hminus rfl
    obtain ⟨c, w', rfl⟩ := List.exists_cons_of_ne_nil hne
    obtain ⟨rfl, -⟩ := List.cons_prefix_cons.1 hrest
    exact absurd hd (by simpa using hdigit)
  unfold take
  rw [hnone]
  rfl

end Digit

/-- The number is read back from its literal. -/
def ReadsBack (x : Real64) : Prop := take (realLiteral x) = some (.real x, [])

instance (x : Real64) : Decidable (ReadsBack x) := inferInstanceAs (Decidable (_ = _))

/-- A number is read back from its literal in front of other text. -/
theorem ReadsBack.take_append {x : Real64} (h : ReadsBack x) {rest : List Char}
    (hrest : Delimits rest) : take (realLiteral x ++ rest) = some (.real x, rest) := by
  unfold ReadsBack at h
  cases x with
  | nan => rfl
  | infinite negative => cases negative <;> rfl
  | finite negative m e =>
    unfold take at h
    split at h
    · rename_i word t hfind
      -- The words that are read as a whole stand for other values.
      have hword : ∀ f ∈ fixed, f.2 ≠ .real (.finite negative m e) := by simp [fixed]
      exact absurd (Prod.mk.inj (Option.some.inj h)).1 (hword _ (List.mem_of_find?_eq_some hfind))
    · split at h
      · obtain ⟨r, -, hr⟩ := Option.map_eq_some_iff.1 h
        exact absurd (Prod.mk.inj hr).1 (by simp)
      · rename_i cs hcs
        obtain ⟨d, cs, rfl, hd⟩ := exists_digit_of_takeNumber h
        rw [hcs, List.cons_append, List.cons_append, take_minus hd, ← List.cons_append]
        exact takeNumber_append hrest h
      · obtain ⟨d, cs, hcs, hd⟩ := exists_digit_of_takeNumber h
        rw [hcs] at h ⊢
        rw [List.cons_append, take_digit hd, ← List.cons_append]
        exact takeNumber_append hrest h

/-! ### Whole numbers -/

/-- A decimal digit is read as the value that it was written for. -/
theorem digitValue?_digitChar : ∀ d < 10, digitValue? (Nat.digitChar d) = some d := by decide

/-- One more digit at the end makes the number ten times as large and adds the digit. -/
theorem digitsValue_concat (cs : List Char) (c : Char) :
    digitsValue (cs ++ [c]) = 10 * digitsValue cs + (digitValue? c).getD 0 := by
  rw [digitsValue, List.foldl_append]
  rfl

/-- The digits of a number write it. -/
theorem digitsValue_toDigits (n : Nat) : digitsValue (Nat.toDigits 10 n) = n := by
  induction n using Nat.strong_induction_on with
  | _ n ih =>
    rw [Nat.toDigits_eq_if (by decide)]
    split
    · rename_i hn
      rw [← List.nil_append [n.digitChar], digitsValue_concat, digitValue?_digitChar n hn,
        digitsValue_nil, Nat.mul_zero, Nat.zero_add, Option.getD_some]
    · rename_i hn
      rw [digitsValue_concat, ih (n / 10) (by omega),
        digitValue?_digitChar _ (Nat.mod_lt n (by decide))]
      exact Nat.div_add_mod n 10

/-- Only zero starts with the digit zero. -/
theorem eq_zero_of_head?_toDigits {n : Nat} (h : (Nat.toDigits 10 n).head? = some '0') : n = 0 := by
  induction n using Nat.strong_induction_on with
  | _ n ih =>
    rw [Nat.toDigits_eq_if (by decide)] at h
    split at h
    · rename_i hn
      have hdigits : ∀ m < 10, Nat.digitChar m = '0' → m = 0 := by decide
      exact hdigits n hn (by simpa using h)
    · rename_i hn
      rw [List.head?_append, Option.or_of_isSome (by simp [Nat.toDigits_ne_nil])] at h
      have hzero := ih (n / 10) (by omega) h
      omega

/-- A whole number is written with decimal digits alone. -/
theorem isAsciiDigit_of_mem_toDigits {n : Nat} {c : Char} (h : c ∈ Nat.toDigits 10 n) :
    isAsciiDigit c = true := by
  have hdigit := Nat.isDigit_of_mem_toDigits (by decide) (by decide) h
  exact hdigit

/-- The digits of a whole number are read back as the number, with the sign that stood before them.
-/
theorem takeNumber_toDigits (negative : Bool) (n : Nat) :
    takeNumber negative (Nat.toDigits 10 n) = some (.int (if negative then -n else n), []) := by
  have hwhole : takeWhole (Nat.toDigits 10 n) = (Nat.toDigits 10 n, []) := by
    by_cases hn : n = 0
    · subst hn
      rfl
    · -- A number that is not zero starts with another digit, and all digits are taken.
      rw [takeWhole.eq_2]
      · rw [List.span_eq_takeWhile_dropWhile, List.takeWhile_eq_self_iff.2,
          List.dropWhile_eq_nil_iff.2]
        · exact fun c hc => isAsciiDigit_of_mem_toDigits hc
        · exact fun c hc => isAsciiDigit_of_mem_toDigits hc
      · rintro rest heq
        exact hn (eq_zero_of_head?_toDigits (by rw [heq]; rfl))
  obtain ⟨d, ds, hds⟩ : ∃ d ds, Nat.toDigits 10 n = d :: ds :=
    List.exists_cons_of_ne_nil Nat.toDigits_ne_nil
  have hvalue := digitsValue_toDigits n
  have hpoint : takePoint [] = ([], []) := rfl
  have hexponent : takeExponent [] = (none, []) := rfl
  unfold takeNumber
  rw [hds] at hwhole hvalue ⊢
  simp only [hwhole, hpoint, hexponent, hvalue, List.isEmpty_nil, Option.isNone_none,
    Bool.and_self, if_true]

/-! ## Values -/

mutual

/-- The floating numbers in a value. -/
def reals : Value → List Real64
  | .null => []
  | .bool _ => []
  | .int _ => []
  | .real x => [x]
  | .text _ => []
  | .list items => itemReals items
  | .record entries => entryReals entries

/-- The floating numbers in the items of a list. -/
def itemReals : List Value → List Real64
  | [] => []
  | v :: vs => reals v ++ itemReals vs

/-- The floating numbers in the entries of a record. -/
def entryReals : List (String × Value) → List Real64
  | [] => []
  | (_, v) :: es => reals v ++ entryReals es

end

mutual

/-- The tokens of a value. -/
def tokens : Value → List Token
  | .null => [.null]
  | .bool b => [.bool b]
  | .int n => [.int n]
  | .real x => [.real x]
  | .text s => [.text s]
  | .list items => .openList :: itemTokens true items ++ [.closeList]
  | .record entries => .openRecord :: entryTokens true entries ++ [.closeRecord]

/-- The tokens of the items of a list, with a comma before each but the first. -/
def itemTokens (isFirst : Bool) : List Value → List Token
  | [] => []
  | v :: vs => (if isFirst then [] else [.comma]) ++ tokens v ++ itemTokens false vs

/-- The tokens of the entries of a record, with a comma before each but the first. -/
def entryTokens (isFirst : Bool) : List (String × Value) → List Token
  | [] => []
  | (k, v) :: es =>
    (if isFirst then [] else [.comma]) ++ .text k :: .colon :: tokens v ++ entryTokens false es

end

/-- The scanner takes a token and goes on behind it. -/
theorem scan_of_take (c : Char) (cs : List Char) {rest : List Char} {t : Token}
    (hspace : isSpace c = false) (h : take (c :: cs ++ rest) = some (t, rest)) :
    Token.scan (c :: cs ++ rest) = (Token.scan rest).map (t :: ·) := by
  rw [List.cons_append] at h ⊢
  rw [Token.scan, if_neg (by simp [hspace]), h]
  exact if_pos (by simp)

/-- A mark of one character is a token. -/
theorem scan_mark (c : Char) {t : Token} (hspace : isSpace c = false)
    (h : ∀ cs, take (c :: cs) = some (t, cs)) (rest : List Char) :
    Token.scan (c :: rest) = (Token.scan rest).map (t :: ·) :=
  scan_of_take c [] hspace (h rest)

/-- Blanks are passed over. -/
theorem scan_spaces {cs : List Char} (h : ∀ c ∈ cs, isSpace c = true) (rest : List Char) :
    Token.scan (cs ++ rest) = Token.scan rest := by
  induction cs with
  | nil => rfl
  | cons c cs ih =>
    obtain ⟨hc, hcs⟩ := List.forall_mem_cons.1 h
    rw [List.cons_append, Token.scan, if_pos hc, ih hcs]

/-- A blank before a token is skipped. -/
theorem scan_blank (rest : List Char) : Token.scan (' ' :: rest) = Token.scan rest := by
  rw [Token.scan, if_pos (by decide)]

/-- No character of a number is a space. -/
theorem isSpace_of_isNumeric {c : Char} (h : isNumeric c = true) : isSpace c = false := by
  by_contra hspace
  simp only [isSpace, Bool.not_eq_false, Bool.or_eq_true, beq_iff_eq] at hspace
  rcases hspace with ((rfl | rfl) | rfl) | rfl <;> exact absurd h (by decide)

section Scalar

variable (rest : List Char)

/-- The literal of a text is read as this text, whatever the escaping and whatever follows: its
closing quote is the first one that is not escaped. -/
theorem scan_textLiteral (escaping : Escaping) (s : String) :
    Token.scan (textLiteral escaping s ++ rest) = (Token.scan rest).map (.text s :: ·) := by
  rw [textLiteral, List.cons_append]
  refine scan_of_take '"' _ (by decide) ?_
  have htake : ∀ cs, take ('"' :: cs) =
      (takeText none cs).map fun r => (.text (String.ofList r.1), r.2) := fun _ => rfl
  rw [List.cons_append, List.append_assoc, List.singleton_append, htake, takeText_textLiteral,
    Option.map_some, String.ofList_toList]

variable {rest} (hrest : Delimits rest)
include hrest

/-- The literal of a whole number is read as this number in front of a delimiter. -/
theorem scan_intLiteral (n : Int) :
    Token.scan (intLiteral n ++ rest) = (Token.scan rest).map (.int n :: ·) := by
  have hmem := fun c (hc : c ∈ Nat.toDigits 10 n.natAbs) => isAsciiDigit_of_mem_toDigits hc
  have hnumber := fun negative =>
    takeNumber_append hrest (takeNumber_toDigits negative n.natAbs)
  obtain ⟨d, ds, hds⟩ : ∃ d ds, Nat.toDigits 10 n.natAbs = d :: ds :=
    List.exists_cons_of_ne_nil Nat.toDigits_ne_nil
  rw [intLiteral]
  rw [hds] at hmem hnumber ⊢
  -- The digits are at least one, and the first decides how the number is taken.
  have hd := hmem d List.mem_cons_self
  split
  · rename_i hn
    refine scan_of_take '-' (d :: ds) (by decide) ?_
    refine (take_minus hd _).trans ((hnumber true).trans ?_)
    rw [if_pos rfl]
    congr
    omega
  · rename_i hn
    refine scan_of_take d ds (isSpace_of_isNumeric ?_) ?_
    · exact isNumeric_of_mem_toDigits (hds ▸ List.mem_cons_self)
    refine (take_digit hd _).trans ((hnumber false).trans ?_)
    rw [if_neg (by decide)]
    congr
    omega

/-- The literal of a real number is read as this number in front of a delimiter, when the number is
one that its shortest decimals read back. -/
theorem scan_realLiteral {x : Real64} (h : ReadsBack x) :
    Token.scan (realLiteral x ++ rest) = (Token.scan rest).map (.real x :: ·) := by
  have htake := h.take_append hrest
  have hne : realLiteral x ≠ [] := by
    intro hnil
    rw [ReadsBack, hnil] at h
    exact absurd h (by simp [take, fixed, takeNumber, takeWhole])
  obtain ⟨c, cs, hcs⟩ := List.exists_cons_of_ne_nil hne
  have hc : isNumeric c = true := isNumeric_of_mem_realLiteral (hcs ▸ List.mem_cons_self)
  rw [hcs] at htake ⊢
  exact scan_of_take c cs (isSpace_of_isNumeric hc) htake

end Scalar

/-- A new line starts with spaces only. -/
theorem isSpace_of_mem_lineStart {level : Nat} {c : Char} (h : c ∈ lineStart level) :
    isSpace c = true := by
  rcases List.mem_cons.1 h with rfl | h
  · decide
  · rw [List.eq_of_mem_replicate h]
    decide

/-- What stands before an item is a comma, or nothing before the first one. -/
theorem scan_before (style : Style) (level : Nat) (isFirst : Bool) (rest : List Char) :
    Token.scan ((if isFirst then style.opening level else style.between level) ++ rest) =
      (Token.scan rest).map ((if isFirst then [] else [.comma]) ++ ·) := by
  have hline := scan_spaces (fun c (hc : c ∈ lineStart level) => isSpace_of_mem_lineStart hc) rest
  have hcomma := scan_mark ',' (by decide) fun _ => rfl
  unfold Style.opening Style.between
  cases isFirst with
  | true =>
    simp only [if_true, List.nil_append, Option.map_id']
    split
    · exact hline
    · rfl
  | false =>
    simp only [Bool.false_eq_true, if_false, List.singleton_append]
    split
    · rw [List.cons_append, hcomma, hline]
    · rw [List.cons_append, hcomma, scan_spaces (by decide)]

/-- What stands before a closing bracket is no token. -/
theorem scan_closing (style : Style) (level : Nat) (isFirst : Bool) (rest : List Char) :
    Token.scan ((if isFirst then [] else style.closing level) ++ rest) = Token.scan rest := by
  unfold Style.closing
  split
  · rfl
  · split
    · exact scan_spaces (fun c hc => isSpace_of_mem_lineStart hc) rest
    · rfl

/-- Behind an item there is a comma, a line break or a closing bracket. -/
theorem delimits_between (style : Style) (level : Nat) (rest : List Char) :
    Delimits (style.between level ++ rest) := by
  unfold Style.between
  split <;> exact delimits_cons.2 (by decide)

/-- What closes a list or a record delimits the number before it, be it on the same line or on the
next. -/
theorem delimits_closing (style : Style) (level : Nat) {c : Char}
    (h : isAsciiDigit c = false ∧ c ≠ '.' ∧ c ≠ 'e' ∧ c ≠ 'E') (rest : List Char) :
    Delimits (style.closing level ++ c :: rest) := by
  unfold Style.closing
  split
  · exact delimits_cons.2 (by decide)
  · exact delimits_cons.2 h

/-- What follows an item of a list delimits it: a comma, or what closes the list. -/
theorem delimits_writeItems (style : Style) (level : Nat) (vs : List Value) (rest : List Char) :
    Delimits (writeItems style level false vs ++ ']' :: rest) := by
  cases vs with
  | nil => exact delimits_closing style level (by decide) rest
  | cons v vs =>
    rw [writeItems, if_neg Bool.false_ne_true, List.append_assoc, List.append_assoc]
    exact delimits_between style (level + 1) _

/-- What follows an entry of a record delimits it: a comma, or what closes the record. -/
theorem delimits_writeEntries (style : Style) (level : Nat) (es : List (String × Value))
    (rest : List Char) : Delimits (writeEntries style level false es ++ '\x7d' :: rest) := by
  cases es with
  | nil => exact delimits_closing style level (by decide) rest
  | cons e es =>
    rw [writeEntries, if_neg Bool.false_ne_true, List.append_assoc, List.append_assoc,
      List.append_assoc]
    exact delimits_between style (level + 1) _

mutual

/-- **A written value is scanned as its tokens.** The induction is on the value, and goes along with
the printer through items and entries. -/
theorem scan_write (style : Style) (level : Nat) {rest : List Char} (hrest : Delimits rest) :
    ∀ v, (∀ x ∈ reals v, ReadsBack x) →
      Token.scan (write style level v ++ rest) = (Token.scan rest).map (tokens v ++ ·)
  | .null, _ => scan_of_take 'n' "ull".toList (by decide) rfl
  | .bool b, _ => by
    cases b with
    | true => exact scan_of_take 't' "rue".toList (by decide) rfl
    | false => exact scan_of_take 'f' "alse".toList (by decide) rfl
  | .int n, _ => scan_intLiteral hrest n
  | .real x, h => scan_realLiteral hrest (h x List.mem_cons_self)
  | .text s, _ => scan_textLiteral rest style.escaping s
  | .list items, h => by
    rw [write, List.append_assoc, List.cons_append, List.singleton_append,
      scan_mark '[' (by decide) fun _ => rfl, scan_writeItems style level true rest items h]
    simp [tokens, Function.comp_def]
  | .record entries, h => by
    rw [write, List.append_assoc, List.cons_append, List.singleton_append,
      scan_mark '\x7b' (by decide) fun _ => rfl, scan_writeEntries style level true rest entries h]
    simp [tokens, Function.comp_def]

/-- The items of a list are read as their tokens up to the closing bracket. The recursion is that of
the printer. -/
theorem scan_writeItems (style : Style) (level : Nat) (isFirst : Bool) (rest : List Char) :
    ∀ vs, (∀ x ∈ itemReals vs, ReadsBack x) →
      Token.scan (writeItems style level isFirst vs ++ ']' :: rest) =
        (Token.scan rest).map (itemTokens isFirst vs ++ .closeList :: ·)
  | [], _ => by
    rw [writeItems, scan_closing]
    exact scan_mark ']' (by decide) (fun _ => rfl) rest
  | v :: vs, h => by
    obtain ⟨hv, hvs⟩ := List.forall_mem_append.1 h
    rw [writeItems, List.append_assoc, List.append_assoc, scan_before,
      scan_write style (level + 1) (delimits_writeItems style level vs rest) v hv,
      scan_writeItems style level false rest vs hvs]
    simp [itemTokens, Function.comp_def]

/-- The entries of a record are read as their tokens up to the closing brace. The recursion is that
of the printer. -/
theorem scan_writeEntries (style : Style) (level : Nat) (isFirst : Bool) (rest : List Char) :
    ∀ es, (∀ x ∈ entryReals es, ReadsBack x) →
      Token.scan (writeEntries style level isFirst es ++ '\x7d' :: rest) =
        (Token.scan rest).map (entryTokens isFirst es ++ .closeRecord :: ·)
  | [], _ => by
    rw [writeEntries, scan_closing]
    exact scan_mark '\x7d' (by decide) (fun _ => rfl) rest
  | (k, v) :: es, h => by
    obtain ⟨hv, hes⟩ := List.forall_mem_append.1 h
    rw [writeEntries, List.append_assoc, List.append_assoc, List.append_assoc, scan_before,
      scan_textLiteral, List.cons_append, List.cons_append, scan_mark ':' (by decide) fun _ => rfl,
      scan_blank, scan_write style (level + 1) (delimits_writeEntries style level es rest) v hv,
      scan_writeEntries style level false rest es hes]
    simp [entryTokens, Function.comp_def]

end

end FormScaffold.Json
