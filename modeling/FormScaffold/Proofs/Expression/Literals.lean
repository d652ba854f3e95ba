import FormScaffold.Proofs.Expression.Lexing
import FormScaffold.Proofs.Json.WellFormed

/-! # Literals in expressions

A literal of an expression is a scalar, so an expression as data repeats no key.

* `isWellFormed_of_lexes` — the literals among the tokens of a text are well-formed;
* **`isWellFormed_of_parseText`** — an expression that a text writes is well-formed data. -/

namespace FormScaffold.Expression

open Json

/-! ## Literals among tokens -/

/-- The lexeme is well-formed data, when it is a literal. -/
def Lexeme.IsSound (l : Lexeme) : Prop := ∀ v, l = .literal v → IsWellFormed v

/-- A literal of a well-formed value is sound. -/
theorem Lexeme.isSound_literal {v : Value} (h : IsWellFormed v) : (Lexeme.literal v).IsSound := by
  rintro w hw
  rwa [← Lexeme.literal.inj hw]

/-- A word is sound: the literals among words are truth values and nothing. -/
theorem isSound_ofWord (word : String) : (Lexeme.ofWord word).IsSound := by
  have hword : ∀ v, literalWord? word = some v → IsWellFormed v := by
    intro v hv
    unfold literalWord? at hv
    iterate 3
      split at hv
      · rw [← Option.some.inj hv]
        trivial
    exact absurd hv (by simp)
  unfold Lexeme.ofWord
  split
  · rename_i v hv
    exact Lexeme.isSound_literal (hword v hv)
  · iterate 4
      split
      · exact fun v hv => absurd hv (by simp)
    exact fun v hv => absurd hv (by simp)

/-- Signs are sound, as none is a literal. -/
theorem isSound_of_mem_signs : ∀ s ∈ signs, s.2.IsSound := by
  simp [signs, Lexeme.IsSound]

/-- A number that is read is sound. -/
theorem isSound_takeUnsigned? {negative : Bool} {cs left : List Char} {l : Lexeme}
    (h : takeUnsigned? negative cs = some (l, left)) : l.IsSound := by
  obtain ⟨whole, -, h⟩ := Option.bind_eq_some_iff.1 h
  simp only at h
  split at h
  · obtain ⟨rfl, -⟩ := Prod.mk.inj (Option.some.inj h)
    exact Lexeme.isSound_literal trivial
  · obtain ⟨rfl, -⟩ := Prod.mk.inj (Option.some.inj h)
    exact Lexeme.isSound_literal trivial

/-- **Every lexeme that is read is sound.** The values of literals are numbers, texts, truth values
and nothing, which have no keys to repeat. -/
theorem isSound_takeLexeme? {cs left : List Char} {l : Lexeme}
    (h : takeLexeme? cs = some (l, left)) : l.IsSound := by
  unfold takeLexeme? at h
  simp only [Option.orElse_eq_orElse, Option.orElse_eq_or, Option.or_eq_some_iff] at h
  -- A number, a text in quotes, a word or a sign, in the order in which they are tried.
  rcases h with h | ⟨-, h | ⟨-, h | ⟨-, h⟩⟩⟩
  · unfold takeNumber? at h
    split at h
    · exact isSound_takeUnsigned? h
    · exact isSound_takeUnsigned? h
  · unfold takeLiteralText? at h
    split at h
    · split at h
      · obtain ⟨r, -, hr⟩ := Option.map_eq_some_iff.1 h
        obtain ⟨rfl, -⟩ := Prod.mk.inj hr
        exact Lexeme.isSound_literal trivial
      · exact absurd h (by simp)
    · exact absurd h (by simp)
  · unfold takeWord? at h
    split at h
    · split at h
      · obtain ⟨rfl, -⟩ := Prod.mk.inj (Option.some.inj h)
        exact isSound_ofWord _
      · exact absurd h (by simp)
    · exact absurd h (by simp)
  · obtain ⟨s, hs, hsign⟩ := Option.map_eq_some_iff.1 h
    obtain ⟨rfl, -⟩ := Prod.mk.inj hsign
    exact isSound_of_mem_signs s (List.mem_of_find?_eq_some hs)

/-- The literals among the tokens of a text are well-formed. -/
theorem isWellFormed_of_lexes {cs : List Char} {us : List Terminal} (h : Lexes cs us) :
    ∀ v, .literal v ∈ us → IsWellFormed v := by
  induction h with
  | nil => exact fun v hv => absurd hv List.not_mem_nil
  | blank hc h ih => exact ih
  | @token c cs left l us hc htake hleft h ih =>
    intro v hv
    rcases List.mem_cons.1 hv with hv | hv
    · exact isSound_takeLexeme? htake v (Lexeme.terminal_eq_literal.1 hv.symm)
    · exact ih v hv

/-! ## Expressions as data -/

/-- Expressions become data one by one. -/
theorem toValues_eq_map (es : List Expression) : toValues es = es.map toValue := by
  induction es with
  | nil => rfl
  | cons e es ih => rw [toValues, ih, List.map_cons]

/-- Parts of a chain that are well-formed make a well-formed chain. -/
theorem isWellFormed_ofChain {join : List Expression → Expression} {word : String}
    (hjoin : ∀ es, (join es).toValue =
      .record [("op", .text word), ("children", .list (toValues es))])
    {es : List Expression} (h : ∀ e ∈ es, IsWellFormed e.toValue) :
    IsWellFormed (ofChain join es).toValue := by
  unfold ofChain
  split
  · exact h _ List.mem_cons_self
  · rw [hjoin]
    simpa [toValues_eq_map] using h

/-- The values of a list stand among its terminals. -/
theorem literal_mem_of_isList {ts : List Terminal} {vs : List Value} (h : IsList ts vs) :
    ∀ v ∈ vs, Terminal.literal v ∈ ts := by
  have hitems : ∀ {vs : List Value} {v : Value}, v ∈ vs →
      Terminal.literal v ∈ commaSeparated vs := fun hv =>
    Text.mem_intercalate_of_mem (List.mem_map_of_mem hv) (List.mem_singleton.2 rfl)
  intro v hv
  cases h with
  | plain => exact List.mem_append_left _ (List.mem_cons_of_mem _ (hitems hv))
  | trailing => exact List.mem_append_left _ (List.mem_cons_of_mem _ (hitems hv))

/-- **An expression whose terminals are well-formed is well-formed data.** The form of the
expression repeats no key, since its keys are those of the program. -/
theorem isWellFormed_of_derives {depth : Nat} {symbol : Symbol} {ts : List Terminal}
    {e : Expression} (h : Derives depth symbol ts e)
    (hts : ∀ v, Terminal.literal v ∈ ts → IsWellFormed v) : IsWellFormed e.toValue := by
  -- Every part of a phrase has its terminals among those of the phrase.
  induction h with
  | disjunction parts hne hparts ih =>
    refine isWellFormed_ofChain (fun es => by rw [toValue]) (List.forall_mem_map.2 fun p hp => ?_)
    exact ih p hp fun v hv => hts v (Text.mem_intercalate_of_mem (List.mem_map_of_mem hp) hv)
  | conjunction parts hne hparts ih =>
    refine isWellFormed_ofChain (fun es => by rw [toValue]) (List.forall_mem_map.2 fun p hp => ?_)
    exact ih p hp fun v hv => hts v (Text.mem_intercalate_of_mem (List.mem_map_of_mem hp) hv)
  | negated h ih =>
    have hpart := ih fun v hv => hts v (List.mem_cons_of_mem _ hv)
    simpa [toValue] using hpart
  | positive h ih => exact ih hts
  | compared op hl hr ihl ihr =>
    have hleft := ihl fun v hv => hts v (List.mem_append_left _ hv)
    have hright := ihr fun v hv => hts v (List.mem_append_right _ (List.mem_cons_of_mem _ hv))
    simpa [toValue] using ⟨hleft, hright⟩
  | within hl hvs ih =>
    have hleft := ih fun v hv => hts v (List.mem_append_left _ hv)
    have hitems := fun v hv => hts v (List.mem_append_right _
      (List.mem_cons_of_mem _ (literal_mem_of_isList hvs v hv)))
    simpa [toValue] using ⟨hleft, hitems⟩
  | notWithin hl hvs ih =>
    have hleft := ih fun v hv => hts v (List.mem_append_left _ hv)
    have hitems := fun v hv => hts v (List.mem_append_right _
      (List.mem_cons_of_mem _ (List.mem_cons_of_mem _ (literal_mem_of_isList hvs v hv))))
    simpa [toValue] using ⟨hleft, hitems⟩
  | alone h ih => exact ih hts
  | literal v =>
    have hv := hts v (List.mem_singleton.2 rfl)
    simpa [toValue] using hv
  | name text => simp [toValue]
  | docName text => simp [toValue]
  | group h ih =>
    exact ih fun v hv => hts v (List.mem_append_left _ (List.mem_cons_of_mem _ hv))

/-- **An expression that a text writes is well-formed data.** So the rules that are written into
generated code are read back as they are. -/
theorem isWellFormed_of_parseText {s : String} {e : Expression} (h : parseText s = .ok e) :
    IsWellFormed e.toValue := by
  obtain ⟨-, -, us, hlexes, hderives⟩ := parseText_eq_ok_iff_derives.1 h
  exact isWellFormed_of_derives hderives (isWellFormed_of_lexes hlexes)

end FormScaffold.Expression
