import FormScaffold.Number.Shortest

/-! # Characters of numbers

The text of a finite number is made of digits, a point, a sign and an exponent.

* `forall_mem_decimal` — what holds of digits and of these marks holds of the text of a decimal;
* **`forall_mem_finiteText`** — so it does of the text of a finite number. -/

namespace FormScaffold.Real64

section Characters

variable {p : Char → Bool} (hdigit : ∀ c, c.isDigit = true → p c = true)

include hdigit

/-- What holds of digits holds of a whole number. -/
theorem forall_mem_toDigits (n : Nat) : ∀ c ∈ Nat.toDigits 10 n, p c = true :=
  fun c hc => hdigit c (Nat.isDigit_of_mem_toDigits (by decide) (by decide) hc)

/-- What holds of digits holds of the digits of a decimal. -/
theorem forall_mem_digitText (d : Decimal) : ∀ c ∈ d.digitText, p c = true := by
  intro c hc
  have hmem : c ∈ (Nat.toDigits 10 d.digits).reverse :=
    (List.dropWhile_sublist _).subset (List.mem_reverse.1 hc)
  exact forall_mem_toDigits hdigit _ c (List.mem_reverse.1 hmem)

/-- What holds of digits holds of zeros. -/
theorem forall_mem_zeros (n : Nat) : ∀ c ∈ List.replicate n '0', p c = true := by
  intro c hc
  rw [List.eq_of_mem_replicate hc]
  exact hdigit '0' (by decide)

variable (hmark : ∀ c ∈ ['.', 'e', '+', '-'], p c = true)

include hmark

/-- What holds of digits and of the marks of numbers holds of an exponent. -/
theorem forall_mem_exponentText (e : Int) : ∀ c ∈ exponentText e, p c = true := by
  have hdigits := forall_mem_toDigits hdigit e.natAbs
  intro c hc
  rw [exponentText, List.mem_cons, List.mem_cons] at hc
  rcases hc with rfl | rfl | hc
  · exact hmark 'e' (by decide)
  · split
    · exact hmark '-' (by decide)
    · exact hmark '+' (by decide)
  · split at hc
    · rcases List.mem_cons.1 hc with rfl | hc
      · exact hdigit '0' (by decide)
      · exact hdigits c hc
    · exact hdigits c hc

/-- What holds of digits and of the marks of numbers holds of a decimal. -/
theorem forall_mem_decimal (d : Decimal) : ∀ c ∈ d.toText, p c = true := by
  have hdigits := forall_mem_digitText hdigit d
  have hzeros := forall_mem_zeros hdigit
  have hpoint : p '.' = true := hmark '.' (by decide)
  have hzero : p '0' = true := hdigit '0' (by decide)
  have hexponent := forall_mem_exponentText hdigit hmark (d.point - 1)
  unfold Decimal.toText
  simp only
  split
  -- Without an exponent: the point stands before the digits, behind them, or among them.
  · split
    · simp only [List.forall_mem_append, List.forall_mem_cons]
      exact ⟨⟨hzero, hpoint, hzeros _⟩, hdigits⟩
    · split
      · simp only [List.forall_mem_append, List.forall_mem_cons]
        exact ⟨⟨hdigits, hzeros _⟩, hpoint, hzero, by simp⟩
      · simp only [List.forall_mem_append, List.forall_mem_cons]
        exact ⟨fun c hc => hdigits c (List.mem_of_mem_take hc), hpoint,
          fun c hc => hdigits c (List.mem_of_mem_drop hc)⟩
  -- With an exponent: the point stands behind the first digit, if there are more.
  · split
    · simp
    · rename_i first heq
      rw [heq, List.forall_mem_cons] at hdigits
      exact List.forall_mem_cons.2 ⟨hdigits.1, hexponent⟩
    · rename_i first rest _ heq
      rw [heq, List.forall_mem_cons] at hdigits
      simp only [List.cons_append, List.forall_mem_cons, List.forall_mem_append]
      exact ⟨hdigits.1, hpoint, hdigits.2, hexponent⟩

/-- **The text of a finite number is made of digits and marks.** -/
theorem forall_mem_finiteText (negative : Bool) (mantissa : Nat) (exponent : Int) :
    ∀ c ∈ finiteText negative mantissa exponent, p c = true := by
  intro c hc
  rcases List.mem_append.1 hc with hc | hc
  · split at hc
    · rw [List.mem_singleton.1 hc]
      exact hmark '-' (by decide)
    · exact absurd hc List.not_mem_nil
  · split at hc
    · have hzero : p '0' = true := hdigit '0' (by decide)
      have hpoint : p '.' = true := hmark '.' (by decide)
      simp only [List.mem_cons, List.not_mem_nil, or_false] at hc
      rcases hc with rfl | rfl | rfl
      · exact hzero
      · exact hpoint
      · exact hzero
    · exact forall_mem_decimal hdigit hmark _ c hc

end Characters

end FormScaffold.Real64
