import FormScaffold.Number.Reading
import FormScaffold.Proofs.Json.Scanning
import FormScaffold.Proofs.Naming

/-! # Floating numbers in JSON

The text of a floating number has a point or an exponent, and no zero in front of other whole
digits. The reader of JSON reads it as the floating number that any reader of numbers makes of it.

* **`Numeral`** — whole digits, digits behind a point, and an exponent;
* `exists_numeral_of_decimal` — the text of a decimal is that of a numeral;
* `takeNumber_numeral`, `readDecimal?_numeral` — two readers give a numeral the same value;
* **`readsBack_of_readReal?`** — a number that is read from its text is read from its literal. -/

namespace FormScaffold.Json

open Text

/-! ## Numerals -/

/-- A floating number in writing. -/
structure Numeral where
  whole : List Char
  /-- The digits behind the point. -/
  fraction : List Char
  /-- The exponent, if there is one. -/
  power : Option Int

namespace Numeral

/-- The exponent in writing. -/
def powerText (n : Numeral) : List Char := n.power.elim [] Real64.exponentText

/-- What stands behind the whole digits. -/
def tail (n : Numeral) : List Char :=
  match n.fraction with
  | [] => n.powerText
  | d :: ds => '.' :: (d :: ds ++ n.powerText)

def text (n : Numeral) : List Char := n.whole ++ n.tail

/-- The number that is written. -/
def value (n : Numeral) (negative : Bool) : Real64 :=
  Real64.ofDecimal negative (digitsValue (n.whole ++ n.fraction))
    (n.power.getD 0 - n.fraction.length)

/-- There are whole digits, with no zero in front of others, and a point or an exponent. -/
structure IsSound (n : Numeral) : Prop where
  whole : n.whole ≠ []
  zero : n.whole.head? = some '0' → n.whole = ['0']
  digits : ∀ c ∈ n.whole ++ n.fraction, isAsciiDigit c = true
  real : n.fraction ≠ [] ∨ n.power.isSome = true

/-- Without digits behind a point the whole digits are followed by the exponent. -/
theorem tail_of_nil {n : Numeral} (h : n.fraction = []) : n.tail = n.powerText := by
  unfold tail
  rw [h]

/-- Digits behind a point stand before the exponent. -/
theorem tail_of_cons {n : Numeral} {d : Char} {ds : List Char} (h : n.fraction = d :: ds) :
    n.tail = '.' :: (d :: ds ++ n.powerText) := by
  unfold tail
  rw [h]

/-- An exponent starts with its letter. -/
theorem head?_powerText (n : Numeral) : ∀ c ∈ n.powerText.head?, c = 'e' := by
  intro c hc
  unfold powerText at hc
  cases hpower : n.power with
  | none =>
    rw [hpower] at hc
    exact absurd hc (by simp)
  | some e =>
    rw [hpower] at hc
    exact (Option.some.inj hc).symm

/-- Behind the whole digits comes the point or the letter of the exponent. -/
theorem head?_tail (n : Numeral) : ∀ c ∈ n.tail.head?, c = '.' ∨ c = 'e' := by
  intro c hc
  unfold tail at hc
  split at hc
  · exact .inr (n.head?_powerText c hc)
  · exact .inl (Option.some.inj hc).symm

end Numeral

/-! ## The text of a decimal -/

/-- The digits of a decimal are digits of ASCII. -/
theorem isAsciiDigit_of_mem_digitText {d : Real64.Decimal} {c : Char} (h : c ∈ d.digitText) :
    isAsciiDigit c = true :=
  Real64.forall_mem_digitText (fun _ hc => hc) d c h

/-- A decimal that is not zero is written with digits, and with no zero in front. -/
theorem head?_digitText {d : Real64.Decimal} (h : d.digits ≠ 0) :
    ∃ c ds, d.digitText = c :: ds ∧ c ≠ '0' := by
  obtain ⟨c, ds, hds⟩ : ∃ c ds, Nat.toDigits 10 d.digits = c :: ds :=
    List.exists_cons_of_ne_nil Nat.toDigits_ne_nil
  have hc : c ≠ '0' := by
    rintro rfl
    exact h (eq_zero_of_head?_toDigits (by rw [hds]; rfl))
  refine ⟨c, (ds.reverse.dropWhile (· == '0')).reverse, ?_, hc⟩
  rw [Real64.Decimal.digitText, hds, List.reverse_cons, List.dropWhile_append]
  split
  · rename_i hempty
    simp [List.isEmpty_iff.1 hempty, hc]
  · simp

/-! ### Where the point stands -/

section Point

variable {c : Char} {ds : List Char} (hc : c ≠ '0')
  (hdigits : ∀ b ∈ c :: ds, isAsciiDigit b = true)

/-- Zeros are digits. -/
theorem isAsciiDigit_of_mem_zeros (k : Nat) :
    ∀ b ∈ List.replicate k '0', isAsciiDigit b = true := by
  intro b hb
  rw [List.eq_of_mem_replicate hb]
  decide

include hc in
/-- Digits that start with another digit than zero have no zero in front of others. -/
theorem eq_zero_of_head? {cs : List Char} (h : (c :: cs).head? = some '0') : c :: cs = ['0'] :=
  absurd (Option.some.inj h) hc

include hdigits in
/-- All digits stand behind the point, after zeros. -/
theorem exists_numeral_behind (k : Nat) : ∃ n : Numeral, n.IsSound ∧
    n.text = '0' :: '.' :: List.replicate k '0' ++ c :: ds := by
  obtain ⟨f, fs, hf⟩ : ∃ f fs, List.replicate k '0' ++ c :: ds = f :: fs :=
    List.exists_cons_of_ne_nil (by simp)
  refine ⟨⟨['0'], f :: fs, none⟩, ⟨by simp, fun _ => rfl, ?_, .inl (by simp)⟩, ?_⟩
  · rw [← hf]
    simp only [List.forall_mem_append]
    exact ⟨by decide, isAsciiDigit_of_mem_zeros k, hdigits⟩
  · simp [Numeral.text, Numeral.tail, Numeral.powerText, ← hf]

include hc hdigits

/-- All digits stand before the point, and zeros after them. -/
theorem exists_numeral_before (k : Nat) : ∃ n : Numeral, n.IsSound ∧
    n.text = c :: ds ++ List.replicate k '0' ++ ['.', '0'] := by
  refine ⟨⟨c :: ds ++ List.replicate k '0', ['0'], none⟩,
    ⟨by simp, eq_zero_of_head? hc, ?_, .inl (by simp)⟩, ?_⟩
  · simp only [List.forall_mem_append]
    exact ⟨⟨hdigits, isAsciiDigit_of_mem_zeros k⟩, by decide⟩
  · simp [Numeral.text, Numeral.tail, Numeral.powerText]

/-- The point stands among the digits. -/
theorem exists_numeral_among {k : Nat} (hk : k < ds.length) : ∃ n : Numeral, n.IsSound ∧
    n.text = (c :: ds).take (k + 1) ++ '.' :: (c :: ds).drop (k + 1) := by
  obtain ⟨f, fs, hf⟩ : ∃ f fs, ds.drop k = f :: fs :=
    List.exists_cons_of_ne_nil (List.drop_eq_nil_iff.not.2 (Nat.not_le.2 hk))
  refine ⟨⟨c :: ds.take k, f :: fs, none⟩, ⟨by simp, eq_zero_of_head? hc, ?_, .inl (by simp)⟩, ?_⟩
  · rw [← hf]
    simpa using hdigits
  · simp [Numeral.text, Numeral.tail, Numeral.powerText, hf]

/-- With an exponent, one digit stands before the point, and the others, if any, behind it. -/
theorem exists_numeral_power (e : Int) : ∃ n : Numeral, n.IsSound ∧ n.text =
    match c :: ds with
    | [] => []
    | [first] => first :: Real64.exponentText e
    | first :: rest => first :: '.' :: rest ++ Real64.exponentText e := by
  refine ⟨⟨[c], ds, some e⟩, ⟨by simp, eq_zero_of_head? hc, by simpa using hdigits, .inr rfl⟩, ?_⟩
  cases ds with
  | nil => simp [Numeral.text, Numeral.tail, Numeral.powerText]
  | cons f fs => simp [Numeral.text, Numeral.tail, Numeral.powerText]

end Point

/-- **The text of a decimal that is not zero is that of a numeral.** The digits stand in front of a
point, around it or behind zeros, or before an exponent, as the size of the number has it. -/
theorem exists_numeral_of_decimal {d : Real64.Decimal} (h : d.digits ≠ 0) :
    ∃ n : Numeral, n.IsSound ∧ n.text = d.toText := by
  obtain ⟨c, ds, hds, hc⟩ := head?_digitText h
  have hdigits : ∀ b ∈ c :: ds, isAsciiDigit b = true :=
    fun b hb => isAsciiDigit_of_mem_digitText (hds ▸ hb)
  unfold Real64.Decimal.toText
  simp only [hds]
  split
  · split
    · exact exists_numeral_behind hdigits _
    · split
      · exact exists_numeral_before hc hdigits _
      · rename_i hpoint hlength
        obtain ⟨k, hk⟩ : ∃ k, d.point.toNat = k + 1 := ⟨d.point.toNat - 1, by omega⟩
        rw [hk, List.length_cons] at hlength
        rw [hk]
        exact exists_numeral_among hc hdigits (by omega)
  · exact exists_numeral_power hc hdigits _

/-- The shortest decimal of a number that is not zero is not zero. -/
theorem digits_shortest_ne_zero {m : Nat} (hm : m ≠ 0) (e : Int) :
    (Real64.shortest m e).digits ≠ 0 := by
  unfold Real64.shortest
  cases hfound : (List.range Real64.maxDigits).findSome? fun k => Real64.decimalOf? m e (k + 1) with
  | none => exact hm
  | some d =>
    obtain ⟨k, -, hk⟩ := List.exists_of_findSome?_eq_some hfound
    have hread := Real64.ofDecimal_of_decimalOf? hk
    intro hzero
    have hdigits : d.digits = 0 := hzero
    rw [hdigits] at hread
    exact hm (Real64.finite.inj hread).2.1.symm

/-- The text of a finite number is that of a numeral behind a sign. -/
theorem exists_numeral (m : Nat) (e : Int) :
    ∃ n : Numeral, n.IsSound ∧
      ∀ negative, Real64.finiteText negative m e = (if negative then ['-'] else []) ++ n.text := by
  by_cases hm : m = 0
  · subst hm
    exact ⟨⟨['0'], ['0'], none⟩, ⟨by simp, fun _ => rfl, by decide, .inl (by simp)⟩, fun _ => rfl⟩
  · obtain ⟨n, hn, htext⟩ := exists_numeral_of_decimal (digits_shortest_ne_zero hm e)
    have hzero : (m == 0) = false := beq_false_of_ne hm
    refine ⟨n, hn, fun negative => ?_⟩
    rw [Real64.finiteText, hzero, htext, if_neg Bool.false_ne_true]

/-! ## Reading numerals -/

section Power

variable (e : Int)

/-- The digits of an exponent, of which there are two at least. -/
def powerDigits : List Char :=
  if (Nat.toDigits 10 e.natAbs).length < 2 then '0' :: Nat.toDigits 10 e.natAbs
  else Nat.toDigits 10 e.natAbs

/-- The digits of an exponent are digits of ASCII. -/
theorem isAsciiDigit_of_mem_powerDigits : ∀ c ∈ powerDigits e, isAsciiDigit c = true := by
  have hdigits := fun c (hc : c ∈ Nat.toDigits 10 e.natAbs) => isAsciiDigit_of_mem_toDigits hc
  unfold powerDigits
  split
  · exact List.forall_mem_cons.2 ⟨by decide, hdigits⟩
  · exact hdigits

/-- Every exponent has a digit. -/
theorem powerDigits_ne_nil : powerDigits e ≠ [] := by
  unfold powerDigits
  split
  · simp
  · exact Nat.toDigits_ne_nil

/-- A zero in front of digits leaves their value. -/
theorem digitsValue_powerDigits : digitsValue (powerDigits e) = e.natAbs := by
  unfold powerDigits
  split
  · exact digitsValue_toDigits e.natAbs
  · exact digitsValue_toDigits e.natAbs

/-- An exponent is written with its letter, its sign and its digits. -/
theorem exponentText_eq : Real64.exponentText e =
    'e' :: (if e < 0 then '-' else '+') :: powerDigits e := rfl

/-- The value of an exponent behind its sign. -/
theorem signed_powerDigits : (if (decide (e < 0)) = true then -(digitsValue (powerDigits e) : Int)
    else digitsValue (powerDigits e)) = e := by
  rw [digitsValue_powerDigits]
  by_cases he : e < 0
  · rw [if_pos (decide_eq_true he)]
    omega
  · rw [if_neg (by simpa using he)]
    omega

end Power

/-- Digits up to the end, or in front of what is no digit. -/
theorem span_digits {ds rest : List Char} (hds : ∀ c ∈ ds, isAsciiDigit c = true)
    (hrest : ∀ c ∈ rest.head?, c = '.' ∨ c = 'e') :
    (ds ++ rest).span isAsciiDigit = (ds, rest) := by
  refine span_append_of_forall hds fun c hc => ?_
  rcases hrest c hc with rfl | rfl <;> decide

/-- No blank may stand in a number. -/
theorem isPadding_of_isNumeric {c : Char} (h : isNumeric c = true) :
    Number.isPadding c = false := by
  have hcode : 0x20 < c.toNat ∧ c.toNat < 0x85 := by
    simp only [isNumeric, Bool.or_eq_true, beq_iff_eq] at h
    rcases h with ((h | rfl) | rfl) | rfl
    · have hcase := isAlphanum_iff.1 h
      omega
    all_goals decide
  rw [Number.isPadding, isBlank_of_code hcode, Bool.false_and]

/-- Digits have no case. -/
theorem toLower_of_isAsciiDigit {c : Char} (h : isAsciiDigit c = true) : c.toLower = c := by
  have hcode : c.toNat ≤ 57 := (isDigit_iff.1 h).2
  rw [← Char.toNat_inj, Naming.toNat_toLower, if_neg (by omega)]

section Reading

variable {n : Numeral} (h : n.IsSound)
include h

/-! ### In JSON -/

/-- Of a numeral the reader takes the whole digits first. -/
theorem takeWhole_numeral : takeWhole n.text = (n.whole, n.tail) := by
  have hdigits := (List.forall_mem_append.1 h.digits).1
  by_cases hzero : n.whole.head? = some '0'
  · rw [Numeral.text, h.zero hzero]
    rfl
  · obtain ⟨c, cs, hcs⟩ := List.exists_cons_of_ne_nil h.whole
    rw [Numeral.text, takeWhole.eq_2, span_digits hdigits n.head?_tail]
    rintro rest heq
    rw [hcs] at hzero heq
    exact hzero (congrArg some (List.cons.inj heq).1)

/-- Behind the whole digits it takes the digits of the fraction. -/
theorem takePoint_numeral : takePoint n.tail = (n.fraction, n.powerText) := by
  have hdigits := (List.forall_mem_append.1 h.digits).2
  have hpower := fun c hc => Or.inr (a := c = '.') (n.head?_powerText c hc)
  cases hfraction : n.fraction with
  | nil =>
    -- The exponent does not start with a point.
    rw [Numeral.tail_of_nil hfraction, takePoint.eq_2]
    rintro d rest heq
    have hhead := n.head?_powerText '.' (by rw [heq]; rfl)
    exact absurd hhead (by decide)
  | cons d ds =>
    rw [hfraction] at hdigits
    rw [Numeral.tail_of_cons hfraction, List.cons_append, takePoint.eq_1,
      if_pos (hdigits d List.mem_cons_self), ← List.cons_append, span_digits hdigits hpower]

omit h in
/-- Behind the fraction it takes the exponent, and nothing is left. -/
theorem takeExponent_numeral : takeExponent n.powerText = (n.power, []) := by
  unfold Numeral.powerText
  cases n.power with
  | none => rfl
  | some e =>
    obtain ⟨d, ds, hds⟩ := List.exists_cons_of_ne_nil (powerDigits_ne_nil e)
    have hdigits := isAsciiDigit_of_mem_powerDigits e
    have hpower : takePower ((if e < 0 then '-' else '+') :: powerDigits e) =
        some (decide (e < 0), powerDigits e, []) := by
      have hspan : (powerDigits e).span isAsciiDigit = (powerDigits e, []) := by
        rw [← List.append_nil (powerDigits e)]
        exact (span_digits hdigits (by simp)).trans (by rw [List.append_nil])
      rw [hds] at hdigits hspan ⊢
      by_cases he : e < 0
      · rw [if_pos he, takePower.eq_1, if_pos (hdigits d List.mem_cons_self), hspan,
          decide_eq_true he]
      · rw [if_neg he, takePower.eq_2, if_pos (hdigits d List.mem_cons_self), hspan,
          decide_eq_false he]
    have hvalue := signed_powerDigits e
    rw [Option.elim_some, exponentText_eq, takeExponent, if_pos (by decide), hpower]
    simp only [hvalue]

/-- **JSON reads a numeral as a floating number.** What makes it a floating one is its point or its
exponent. -/
theorem takeNumber_numeral (negative : Bool) :
    takeNumber negative n.text = some (.real (n.value negative), []) := by
  obtain ⟨c, cs, hcs⟩ := List.exists_cons_of_ne_nil h.whole
  have hreal : (n.fraction.isEmpty && n.power.isNone) = false := by
    rcases h.real with hfraction | hpower
    · simp [hfraction]
    · simp [Option.isNone_eq_false_iff.2 hpower]
  unfold takeNumber
  rw [takeWhole_numeral h]
  simp only [hcs]
  rw [takePoint_numeral h]
  simp only [takeExponent_numeral, hreal, Bool.false_eq_true, if_false, Numeral.value, hcs]

/-! ### Elsewhere -/

omit h in
/-- The digits of ASCII are among the digits of all scripts. -/
theorem isDigit_of_isAsciiDigit {c : Char} (hc : isAsciiDigit c = true) :
    Text.isDigit c = true := by
  have hcode : 0x30 ≤ c.toNat ∧ c.toNat ≤ 0x39 := isDigit_iff.1 hc
  rw [Text.isDigit, digitValue?, Option.isSome_map, List.find?_isSome]
  exact ⟨(0x30, 0x39), List.mem_cons_self, by simpa using hcode⟩

omit h in
/-- Digits are taken up to what is neither a digit nor an underscore. -/
theorem takeDigits_append {ds rest : List Char} (hds : ∀ c ∈ ds, isAsciiDigit c = true)
    (hrest : ∀ c ∈ rest.head?, c = '.' ∨ c = 'e') :
    Number.takeDigits (ds ++ rest) = (ds, rest) := by
  induction ds with
  | nil =>
    cases rest with
    | nil => rfl
    | cons c rest =>
      have hc : Text.isDigit c = false := by
        rcases hrest c rfl with rfl | rfl <;> decide
      unfold Number.takeDigits
      split
      · rename_i heq
        obtain ⟨rfl, rfl⟩ := List.cons.inj heq
        rw [if_neg (by simp [hc])]
      · rename_i heq
        obtain ⟨rfl, rfl⟩ := List.cons.inj heq
        rw [if_neg (by simp [hc])]
      · rename_i heq
        exact absurd heq (by simp)
  | cons c ds ih =>
    obtain ⟨hc, hds⟩ := List.forall_mem_cons.1 hds
    rw [List.cons_append, Number.takeDigits.eq_2, if_pos (isDigit_of_isAsciiDigit hc), ih hds]
    -- No underscore stands behind the first digit, so that the digits go on as they are.
    rintro d left heq
    cases ds with
    | nil =>
      rcases hrest '_' (by rw [← List.nil_append rest, heq]; rfl) with hne | hne <;>
        exact absurd hne (by decide)
    | cons b ds =>
      have hb := hds b List.mem_cons_self
      rw [(List.cons.inj heq).1] at hb
      exact absurd hb (by decide)

/-- The other reader takes the same digits behind the point. -/
theorem takeFraction_numeral : Number.takeFraction n.tail = (n.fraction, n.powerText) := by
  have hdigits := (List.forall_mem_append.1 h.digits).2
  have hpower := fun c hc => Or.inr (a := c = '.') (n.head?_powerText c hc)
  cases hfraction : n.fraction with
  | nil =>
    rw [Numeral.tail_of_nil hfraction, Number.takeFraction.eq_2]
    rintro rest heq
    have hhead := n.head?_powerText '.' (by rw [heq]; rfl)
    exact absurd hhead (by decide)
  | cons d ds =>
    rw [hfraction] at hdigits
    rw [Numeral.tail_of_cons hfraction, Number.takeFraction.eq_1,
      takeDigits_append hdigits hpower]

omit h in
/-- The other reader takes the same exponent, zero when there is none. -/
theorem readExponent?_numeral : Number.readExponent? n.powerText = some (n.power.getD 0) := by
  unfold Numeral.powerText
  cases n.power with
  | none => rfl
  | some e =>
    obtain ⟨d, ds, hds⟩ := List.exists_cons_of_ne_nil (powerDigits_ne_nil e)
    -- The sign of an exponent is always written.
    have hsign : Number.takeSign ((if e < 0 then '-' else '+') :: powerDigits e) =
        (decide (e < 0), powerDigits e) := by
      by_cases he : e < 0
      · rw [if_pos he, decide_eq_true he]
        rfl
      · rw [if_neg he, decide_eq_false he]
        rfl
    have htake : Number.takeDigits (powerDigits e) = (powerDigits e, []) := by
      rw [← List.append_nil (powerDigits e)]
      exact (takeDigits_append (isAsciiDigit_of_mem_powerDigits e) (by simp)).trans
        (by rw [List.append_nil])
    have hvalue := signed_powerDigits e
    rw [Option.elim_some, exponentText_eq, Number.readExponent?, if_pos (by decide), hsign]
    simp only [htake]
    rw [hds] at hvalue ⊢
    simp only [hvalue, Option.getD_some]

/-- **A numeral is read as its value**, whatever else the reader takes. The two readers are
different programs: this one reads the text of a number by itself, the other one reads it in a
document. -/
theorem readDecimal?_numeral (negative : Bool) :
    Number.readDecimal? negative n.text = some (n.value negative) := by
  have hdigits := (List.forall_mem_append.1 h.digits).1
  have hwhole : n.whole.isEmpty = false := by simpa using h.whole
  unfold Number.readDecimal?
  rw [Numeral.text, takeDigits_append hdigits n.head?_tail]
  simp only [takeFraction_numeral h, hwhole, Bool.false_and, Bool.false_eq_true, if_false,
    readExponent?_numeral, Option.map_some, Numeral.value]

/-- The characters of a numeral are those of numbers. -/
theorem isNumeric_of_mem_numeral : ∀ c ∈ n.text, isNumeric c = true := by
  obtain ⟨hwhole, hfraction⟩ := List.forall_mem_append.1 h.digits
  have hdigits : ∀ {cs : List Char}, (∀ c ∈ cs, isAsciiDigit c = true) →
      ∀ c ∈ cs, isNumeric c = true := fun hcs c hc => isNumeric_of_isDigit c (hcs c hc)
  have hpower : ∀ c ∈ n.powerText, isNumeric c = true := by
    unfold Numeral.powerText
    cases n.power with
    | none => simp
    | some e => exact Real64.forall_mem_exponentText isNumeric_of_isDigit (by decide) e
  refine List.forall_mem_append.2 ⟨hdigits hwhole, ?_⟩
  cases hcases : n.fraction with
  | nil => rwa [Numeral.tail_of_nil hcases]
  | cons d ds =>
    rw [Numeral.tail_of_cons hcases]
    exact List.forall_mem_cons.2
      ⟨by decide, List.forall_mem_append.2 ⟨hcases ▸ hdigits hfraction, hpower⟩⟩

/-- A numeral starts with a digit. -/
theorem exists_digit_of_numeral :
    ∃ d cs, n.text = d :: cs ∧ isAsciiDigit d = true := by
  obtain ⟨d, ds, hds⟩ := List.exists_cons_of_ne_nil h.whole
  refine ⟨d, ds ++ n.tail, by rw [Numeral.text, hds, List.cons_append], ?_⟩
  exact h.digits d (List.mem_append_left _ (hds ▸ List.mem_cons_self))

/-- **A numeral behind a sign is read as its value.** The sign goes to the mantissa in both readers.
-/
theorem readReal?_numeral (negative : Bool) :
    Number.readReal? ((if negative then ['-'] else []) ++ n.text) = some (n.value negative) := by
  obtain ⟨d, cs, hcs, hd⟩ := exists_digit_of_numeral h
  have hnumeric : ∀ c ∈ (if negative then ['-'] else []) ++ n.text, isNumeric c = true := by
    refine List.forall_mem_append.2 ⟨?_, isNumeric_of_mem_numeral h⟩
    cases negative <;> decide
  have hplain : ∀ c ∈ (if negative then ['-'] else []) ++ n.text, Number.isPadding c = false :=
    fun c hc => isPadding_of_isNumeric (hnumeric c hc)
  have hdrop := dropEnds_eq_self (fun c hc => hplain c (List.mem_of_mem_head? hc))
    (fun c hc => hplain c (List.mem_of_getLast? hc))
  have hsign : Number.takeSign ((if negative then ['-'] else []) ++ n.text) =
      (negative, n.text) := by
    cases negative with
    | true => rfl
    | false =>
      rw [if_neg Bool.false_ne_true, List.nil_append, hcs, Number.takeSign.eq_3]
      · rintro rest heq
        rw [(List.cons.inj heq).1] at hd
        exact absurd hd (by decide)
      · rintro rest heq
        rw [(List.cons.inj heq).1] at hd
        exact absurd hd (by decide)
  -- The first character is a digit, so that the text is none of the words.
  have hword : ∀ w : String, (∀ c ∈ w.toList.head?, isAsciiDigit c = false) →
      (String.ofList (n.text.map Char.toLower) == w) = false := by
    intro w hw
    rw [beq_eq_false_iff_ne]
    rintro rfl
    have hlower : isAsciiDigit d.toLower = false := by
      refine hw d.toLower ?_
      rw [hcs, String.toList_ofList]
      rfl
    rw [toLower_of_isAsciiDigit hd] at hlower
    exact absurd hd (by simp [hlower])
  unfold Number.readReal?
  rw [hdrop, hsign]
  simp only [hword "inf" (by decide), hword "infinity" (by decide), hword "nan" (by decide),
    Bool.or_self, Bool.false_eq_true, if_false]
  exact readDecimal?_numeral h negative

end Reading

/-- **A number that is read from its text is read from its literal**, as a floating number. -/
theorem readsBack_of_readReal? {x : Real64} (h : Number.readReal? x.toText.toList = some x) :
    ReadsBack x := by
  cases x with
  | nan => rfl
  | infinite negative => cases negative <;> rfl
  | finite negative m e =>
    obtain ⟨n, hn, htext⟩ := exists_numeral m e
    have hvalue : n.value negative = .finite negative m e := by
      rw [Real64.toText, Real64.textWith, String.toList_ofList, htext,
        readReal?_numeral hn] at h
      exact Option.some.inj h
    obtain ⟨d, cs, hcs, hd⟩ := exists_digit_of_numeral hn
    have hnumber := takeNumber_numeral hn negative
    rw [hvalue] at hnumber
    rw [ReadsBack, realLiteral, Real64.textWith, String.toList_ofList, htext]
    rw [hcs] at hnumber ⊢
    cases negative with
    | true => exact (take_minus hd cs).trans hnumber
    | false => exact (take_digit hd cs).trans hnumber

end FormScaffold.Json
