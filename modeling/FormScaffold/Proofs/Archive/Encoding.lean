import FormScaffold.Archive.Base64

/-! # Base 64 read back

* `value?_digit` — a character is read as the number that it writes;
* `toNat_lt_of_mem_encode` — what is written is ASCII;
* **`decode?_encode`** — what is written to the base 64 is read back. -/

namespace FormScaffold.Base64

/-! ## Characters -/

/-- A digit of the encoding is read as the value that it was written for. -/
theorem value?_digit {n : Nat} (h : n < 64) : value? (digit n) = some n := by
  have hall : ∀ n < 64, value? (digit n) = some n := by decide
  exact hall n h

/-- No digit of the encoding is the mark that fills the last group. -/
theorem digit_ne_mark {n : Nat} (h : n < 64) : digit n ≠ '=' := by
  have hall : ∀ n < 64, digit n ≠ '=' := by decide
  exact hall n h

/-- The digits of the encoding are characters of ASCII. -/
theorem toNat_digit_lt (n : Nat) : (digit n).toNat < 128 := by
  by_cases h : n < 64
  · have hall : ∀ n < 64, (digit n).toNat < 128 := by decide
    exact hall n h
  · have hdigit : digit n = '/' := by
      unfold digit
      rw [if_neg (by omega), if_neg (by omega), if_neg (by omega), if_neg]
      simp
      omega
    rw [hdigit]
    decide

/-- What is written is ASCII. -/
theorem toNat_lt_of_mem_encode {bytes : List UInt8} {c : Char} (h : c ∈ encode bytes) :
    c.toNat < 128 := by
  have hgroup : ∀ {n count : Nat} {c : Char}, c ∈ group n count → c.toNat < 128 := by
    intro n count c hc
    obtain ⟨k, -, rfl⟩ := List.mem_map.1 (List.mem_of_mem_take hc)
    exact toNat_digit_lt k
  have hmark : ∀ {c : Char}, c = '=' → c.toNat < 128 := by
    rintro c rfl
    decide
  -- Every group is made of digits, and only the last one has marks.
  fun_induction encode bytes with
  | case1 => exact absurd h List.not_mem_nil
  | case2 a =>
    rcases List.mem_append.1 h with h | h
    · exact hgroup h
    · exact hmark (by simpa using h)
  | case3 a b =>
    rcases List.mem_append.1 h with h | h
    · exact hgroup h
    · exact hmark (by simpa using h)
  | case4 a b c rest ih =>
    rcases List.mem_append.1 h with h | h
    · exact hgroup h
    · exact ih h

/-! ## Groups -/

/-- A group is written digit by digit. -/
theorem group_four (n : Nat) : group n 4 =
    [digit (n / 262144), digit (n / 4096 % 64), digit (n / 64 % 64), digit (n % 64)] := rfl

/-- The digits of two bytes. -/
theorem group_three (n : Nat) : group n 3 =
    [digit (n / 262144), digit (n / 4096 % 64), digit (n / 64 % 64)] := rfl

/-- The digits of one byte. -/
theorem group_two (n : Nat) : group n 2 = [digit (n / 262144), digit (n / 4096 % 64)] := rfl

/-- Behind a full group stand no marks alone, unless nothing stands there. -/
theorem isPadding_encode {bytes : List UInt8} (h : bytes ≠ []) :
    isPadding (encode bytes) = false := by
  -- The first six bits of a group make a digit, which is no mark.
  have hfirst : ∀ {n : Nat} {cs : List Char}, n < 2 ^ 24 →
      isPadding (digit (n / 262144) :: cs) = false := by
    intro n cs hn
    have hne := digit_ne_mark (n := n / 262144) (by omega)
    simp [isPadding, hne]
  unfold encode
  split
  · exact absurd rfl h
  · rename_i a
    have ha := a.toNat_lt
    rw [group_two]
    exact hfirst (by omega)
  · rename_i a b
    have ha := a.toNat_lt
    have hb := b.toNat_lt
    rw [group_three]
    exact hfirst (by omega)
  · rename_i a b c rest
    have ha := a.toNat_lt
    have hb := b.toNat_lt
    have hc := c.toNat_lt
    rw [group_four]
    exact hfirst (by omega)

/-- A number that is that of a byte is this byte. -/
theorem toUInt8_of_eq {n : Nat} {b : UInt8} (h : n = b.toNat) : n.toUInt8 = b := by
  rw [h]
  exact UInt8.ofNat_toNat

/-- **What is written to the base 64 is read back.** The induction takes three bytes at a time, as
the encoder does; a last group of one or two bytes is filled with marks. -/
theorem decode?_encode (bytes : List UInt8) : decode? (encode bytes) = some bytes := by
  fun_induction encode bytes with
  | case1 => rfl
  | case2 a =>
    have ha := a.toNat_lt
    rw [group_two]
    show decode? [_, _, '=', '='] = _
    rw [decode?.eq_2, value?_digit (by omega), value?_digit (by omega)]
    show some [_] = some [a]
    rw [toUInt8_of_eq (b := a) (by omega)]
  | case3 a b =>
    have ha := a.toNat_lt
    have hb := b.toNat_lt
    rw [group_three]
    show decode? [_, _, _, '='] = _
    rw [decode?.eq_3 _ _ _ (digit_ne_mark (by omega)), value?_digit (by omega),
      value?_digit (by omega), value?_digit (by omega)]
    show some [_, _] = some [a, b]
    rw [toUInt8_of_eq (b := a) (by omega), toUInt8_of_eq (b := b) (by omega)]
  | case4 a b c rest ih =>
    have ha := a.toNat_lt
    have hb := b.toNat_lt
    have hc := c.toNat_lt
    have hlast : digit ((a.toNat * 65536 + b.toNat * 256 + c.toNat) % 64) ≠ '=' :=
      digit_ne_mark (by omega)
    rw [group_four]
    show decode? (_ :: _ :: _ :: _ :: encode rest) = _
    rw [decode?.eq_4 _ _ _ _ _ (fun _ h _ => hlast h) (fun h _ => hlast h), value?_digit (by omega),
      value?_digit (by omega), value?_digit (by omega), value?_digit (by omega)]
    show (if isPadding (encode rest) = true then some [_, _, _]
      else (decode? (encode rest)).bind fun more => some (_ :: _ :: _ :: more)) =
        some (a :: b :: c :: rest)
    rw [toUInt8_of_eq (b := a) (by omega), toUInt8_of_eq (b := b) (by omega),
      toUInt8_of_eq (b := c) (by omega)]
    -- What is taken for padding can only be the end.
    split
    · rename_i hpadding
      cases rest with
      | nil => rfl
      | cons d rest =>
        rw [isPadding_encode (by simp)] at hpadding
        exact absurd hpadding Bool.false_ne_true
    · rw [ih]
      rfl

end FormScaffold.Base64
