import FormScaffold.Value.Fault
import FormScaffold.Value.Keyed
import Mathlib.Algebra.Field.Rat
import Mathlib.Algebra.Order.Ring.Int
import Mathlib.Data.List.Induction
import Mathlib.Data.Rat.Cast.Defs
import Mathlib.Tactic.Ring

/-! # Likeness of keys

Keys are compared by content: two numbers are the same when they have the same value, whatever their
kinds. That a number which is none is not even the same as itself does not matter to a key, which is
found where it was put.

* `Magnitude` — the value of a number, and `compare?_eq_some_eq`: two numbers compare as equal when
  they have one value;
* **`IsAlike`** — equal or of the same content; `IsAlike.trans` — among keys this carries over;
* `exists_isAlike_ofList` — what is put under a key stands under one that is like it. -/

namespace FormScaffold

/-! ## Values of numbers -/

/-- The value of a number: a rational or an infinity. -/
inductive Magnitude where
  | finite (q : ℚ)
  | infinite (negative : Bool)

namespace Real64

/-- A signed mantissa times its power of two. -/
def rational (negative : Bool) (mantissa : Nat) (exponent : Int) : ℚ :=
  (if negative then -(mantissa : ℚ) else mantissa) * 2 ^ exponent

/-- The value of a number; none when it is not a number. -/
def magnitude? : Real64 → Option Magnitude
  | .nan => none
  | .infinite negative => some (.infinite negative)
  | .finite negative mantissa exponent => some (.finite (rational negative mantissa exponent))

/-- In units of a lower power of two the value is whole. -/
theorem units_eq {e low : Int} (h : low ≤ e) (negative : Bool) (mantissa : Nat) :
    (units negative mantissa e low : ℚ) * 2 ^ low = rational negative mantissa e := by
  have hpow : (2 : ℚ) ^ (e - low).toNat * 2 ^ low = 2 ^ e := by
    rw [← zpow_natCast, Int.toNat_of_nonneg (by omega), ← zpow_add₀ (by norm_num),
      Int.sub_add_cancel]
  unfold units rational
  rw [← hpow]
  cases negative <;> simp <;> ring

/-- Two numbers in units of one power of two are equal just when their values are. -/
theorem units_inj {a b : Bool} {m n : Nat} {e f low : Int} (he : low ≤ e) (hf : low ≤ f) :
    units a m e low = units b n f low ↔ rational a m e = rational b n f := by
  rw [← units_eq he, ← units_eq hf, mul_left_inj' (zpow_ne_zero low (by norm_num)), Int.cast_inj]

/-- Two floating numbers are found equal just when they have one value. -/
theorem compare?_eq_some_eq {x y : Real64} :
    x.compare? y = some .eq ↔ ∃ m, x.magnitude? = some m ∧ y.magnitude? = some m := by
  cases x with
  | nan => simp [compare?, magnitude?]
  | infinite a =>
    cases y with
    | nan => simp [compare?, magnitude?]
    | infinite b => cases a <;> cases b <;> simp [compare?, magnitude?]
    | finite b n f => cases a <;> simp [compare?, magnitude?]
  | finite a m e =>
    cases y with
    | nan => simp [compare?, magnitude?]
    | infinite b => cases b <;> simp [compare?, magnitude?]
    | finite b n f =>
      -- They are compared in units of the lower of their powers.
      have hunits := units_inj (a := a) (b := b) (m := m) (n := n) (min_le_left e f)
        (min_le_right e f)
      simp only [compare?, magnitude?, Option.some.injEq, compare_eq_iff_eq, hunits,
        exists_eq_left', Magnitude.finite.injEq]
      exact eq_comm

/-- A floating number is found equal to a whole one just when the whole one is its value. -/
theorem compareInt?_eq_some_eq {x : Real64} {n : Int} :
    x.compareInt? n = some .eq ↔ x.magnitude? = some (.finite n) := by
  cases x with
  | nan => simp [compareInt?, magnitude?]
  | infinite a => cases a <;> simp [compareInt?, magnitude?]
  | finite a m e =>
    -- A whole number is its own mantissa, or that of its opposite.
    have hwhole : ∃ b k, units b k 0 (min e 0) = n * Nat.pow 2 (-min e 0).toNat ∧
        rational b k 0 = n := by
      rcases Int.eq_nat_or_neg n with ⟨k, rfl | rfl⟩
      · exact ⟨false, k, by simp [units], by simp [rational]⟩
      · exact ⟨true, k, by simp [units], by simp [rational]⟩
    obtain ⟨b, k, hunits, hrational⟩ := hwhole
    have hinj := units_inj (a := a) (b := b) (m := m) (n := k) (min_le_left e 0)
      (min_le_right e 0)
    rw [hunits, hrational] at hinj
    simp only [compareInt?, magnitude?, Option.some.injEq, compare_eq_iff_eq,
      Magnitude.finite.injEq]
    exact hinj

end Real64

namespace Value

/-- The value of a number of either kind. -/
def Scalar.magnitude? : Scalar → Option Magnitude
  | .int n => some (.finite n)
  | .real x => x.magnitude?

/-- **Two numbers compare as equal when they have one value.** A whole number and a floating one may
have one value, and what is not a number has none. -/
theorem Scalar.compare?_eq_some_eq {a b : Scalar} :
    a.compare? b = some .eq ↔ ∃ m, a.magnitude? = some m ∧ b.magnitude? = some m := by
  cases a with
  | int n =>
    cases b with
    | int k =>
      simp only [compare?, magnitude?, Option.some.injEq, compare_eq_iff_eq, exists_eq_left',
        Magnitude.finite.injEq, Int.cast_inj]
      exact eq_comm
    | real y =>
      have hswap : (y.compareInt? n).map Ordering.swap = some .eq ↔
          y.compareInt? n = some .eq := by
        cases y.compareInt? n with
        | none => simp
        | some o => cases o <;> simp
      simp [compare?, magnitude?, hswap, Real64.compareInt?_eq_some_eq]
  | real x =>
    cases b with
    | int k => simp [compare?, magnitude?, Real64.compareInt?_eq_some_eq]
    | real y => exact Real64.compare?_eq_some_eq

/-- The value of a value that is a number or a truth value. -/
def magnitude? (v : Value) : Option Magnitude := v.scalar?.bind Scalar.magnitude?

/-- A number is the same as a value just when both have one value. -/
theorem sameScalar_eq_true {a : Scalar} {w : Value} :
    sameScalar a w = true ↔ ∃ m, a.magnitude? = some m ∧ w.magnitude? = some m := by
  unfold sameScalar magnitude?
  cases w.scalar? with
  | none => simp
  | some b => simp [Scalar.compare?_eq_some_eq]

/-- **Keys are the same when they are one text, both nothing, or numbers of one value.** A truth
value counts as the number one or zero here. -/
theorem same_eq_true_iff {v w : Value} (hv : v.isKey = true) :
    v.same w = true ↔ (v = w ∧ v.scalar? = none) ∨
      ∃ m, v.magnitude? = some m ∧ w.magnitude? = some m := by
  cases v with
  | null => cases w <;> simp [same, isNull, scalar?, magnitude?]
  | bool b => simp [same, sameScalar_eq_true, scalar?, magnitude?]
  | int n => simp [same, sameScalar_eq_true, scalar?, magnitude?]
  | real x => simp [same, sameScalar_eq_true, scalar?, magnitude?]
  | text s => cases w <;> simp [same, scalar?, magnitude?]
  | list items => exact absurd hv Bool.false_ne_true
  | record es => exact absurd hv Bool.false_ne_true

end Value

/-! ## Keys -/

/-- The values are equal or have the same content. -/
def IsAlike (v w : Value) : Prop := v = w ∨ v.same w = true

/-- A value is like itself. -/
theorem IsAlike.refl (v : Value) : IsAlike v v := .inl rfl

/-- **Among keys likeness carries over.** The value of a number is exact, so that nothing is lost on
the way from one to the next. -/
theorem IsAlike.trans {u v w : Value} (hu : u.isKey = true) (hv : v.isKey = true)
    (huv : IsAlike u v) (hvw : IsAlike v w) : IsAlike u w := by
  rcases huv with rfl | huv
  · exact hvw
  rcases hvw with rfl | hvw
  · exact .inr huv
  -- Two numbers that are the same as a third one have its value.
  rcases (Value.same_eq_true_iff hu).1 huv with ⟨rfl, -⟩ | ⟨m, hum, hvm⟩
  · exact .inr hvw
  rcases (Value.same_eq_true_iff hv).1 hvw with ⟨rfl, -⟩ | ⟨n, hvn, hwn⟩
  · exact .inr huv
  obtain rfl : m = n := Option.some.inj (hvm.symm.trans hvn)
  exact .inr ((Value.same_eq_true_iff hu).2 (.inr ⟨m, hum, hwn⟩))

namespace Keyed

variable {α : Type}

/-- What is put somewhere is there, under a key that was there or is new. -/
theorem exists_of_mem_put {m : Keyed α} {key : Value} {a : α} {p : Value × α}
    (h : p ∈ m.put key a) :
    (p.1 = key ∨ ∃ q ∈ m, q.1 = p.1) ∧ (p.2 = a ∨ ∃ q ∈ m, q.2 = p.2) := by
  induction m with
  | nil =>
    obtain rfl := List.mem_singleton.1 h
    exact ⟨.inl rfl, .inl rfl⟩
  | cons q m ih =>
    obtain ⟨k, old⟩ := q
    rw [put] at h
    split at h
    · rcases List.mem_cons.1 h with rfl | h
      · exact ⟨.inr ⟨_, List.mem_cons_self, rfl⟩, .inl rfl⟩
      · exact ⟨.inr ⟨p, List.mem_cons_of_mem _ h, rfl⟩, .inr ⟨p, List.mem_cons_of_mem _ h, rfl⟩⟩
    · rcases List.mem_cons.1 h with rfl | h
      · exact ⟨.inr ⟨_, List.mem_cons_self, rfl⟩, .inr ⟨_, List.mem_cons_self, rfl⟩⟩
      · obtain ⟨hkey, hthing⟩ := ih h
        exact ⟨hkey.imp_right fun ⟨q, hq, heq⟩ => ⟨q, List.mem_cons_of_mem _ hq, heq⟩,
          hthing.imp_right fun ⟨q, hq, heq⟩ => ⟨q, List.mem_cons_of_mem _ hq, heq⟩⟩

/-- Something stands under a key like the one that was put. -/
theorem exists_isAlike_put (m : Keyed α) (key : Value) (a : α) :
    ∃ p ∈ m.put key a, IsAlike p.1 key := by
  induction m with
  | nil => exact ⟨_, List.mem_cons_self, .refl key⟩
  | cons q m ih =>
    obtain ⟨k, old⟩ := q
    rw [put]
    split
    · rename_i hsame
      exact ⟨_, List.mem_cons_self, .inr hsame⟩
    · obtain ⟨p, hp, halike⟩ := ih
      exact ⟨p, List.mem_cons_of_mem _ hp, halike⟩

/-- The keys stay when something is put. -/
theorem exists_key_put {m : Keyed α} {p : Value × α} (h : p ∈ m) (key : Value) (a : α) :
    ∃ q ∈ m.put key a, q.1 = p.1 := by
  induction m with
  | nil => exact absurd h List.not_mem_nil
  | cons q m ih =>
    obtain ⟨k, old⟩ := q
    rw [put]
    split
    · rcases List.mem_cons.1 h with rfl | h
      · exact ⟨_, List.mem_cons_self, rfl⟩
      · exact ⟨p, List.mem_cons_of_mem _ h, rfl⟩
    · rcases List.mem_cons.1 h with rfl | h
      · exact ⟨_, List.mem_cons_self, rfl⟩
      · obtain ⟨q, hq, heq⟩ := ih h
        exact ⟨q, List.mem_cons_of_mem _ hq, heq⟩

/-- The last of several pairs is put behind or in place of the others. -/
theorem ofList_concat (pairs : Keyed α) (last : Value × α) :
    ofList (pairs ++ [last]) = (ofList pairs).put last.1 last.2 := by
  rw [ofList, ofList, List.foldl_append]
  rfl

/-- Keys and things come from the list. -/
theorem exists_of_mem_ofList {pairs : Keyed α} {p : Value × α} (h : p ∈ ofList pairs) :
    (∃ q ∈ pairs, q.1 = p.1) ∧ ∃ q ∈ pairs, q.2 = p.2 := by
  induction pairs using List.reverseRecOn generalizing p with
  | nil => exact absurd h List.not_mem_nil
  | append_singleton pairs last ih =>
    rw [ofList_concat] at h
    obtain ⟨hkey, hthing⟩ := exists_of_mem_put h
    have hlast : last ∈ pairs ++ [last] := List.mem_append_right _ (List.mem_singleton_self _)
    constructor
    · rcases hkey with heq | ⟨q, hq, heq⟩
      · exact ⟨last, hlast, heq.symm⟩
      · obtain ⟨⟨r, hr, hrq⟩, -⟩ := ih hq
        exact ⟨r, List.mem_append_left _ hr, hrq.trans heq⟩
    · rcases hthing with heq | ⟨q, hq, heq⟩
      · exact ⟨last, hlast, heq.symm⟩
      · obtain ⟨-, r, hr, hrq⟩ := ih hq
        exact ⟨r, List.mem_append_left _ hr, hrq.trans heq⟩

/-- **What is put under a key stands under one that is like it.** The key that came first is the one
that stays. -/
theorem exists_isAlike_ofList {pairs : Keyed α} {q : Value × α} (h : q ∈ pairs) :
    ∃ p ∈ ofList pairs, IsAlike p.1 q.1 := by
  -- Pairs are put in their order, so that the last one is put into what the others made.
  induction pairs using List.reverseRecOn with
  | nil => exact absurd h List.not_mem_nil
  | append_singleton pairs last ih =>
    rw [ofList_concat]
    rcases List.mem_append.1 h with h | h
    · obtain ⟨p, hp, halike⟩ := ih h
      obtain ⟨r, hr, hkey⟩ := exists_key_put hp last.1 last.2
      exact ⟨r, hr, hkey ▸ halike⟩
    · obtain rfl := List.mem_singleton.1 h
      exact exists_isAlike_put _ _ _

end Keyed

end FormScaffold
