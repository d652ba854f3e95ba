import FormScaffold.Proofs.Expression.Grammar
import FormScaffold.Proofs.Traversal

/-! # The readers read the grammar

Each reader takes the longest run of tokens that its symbol derives, and refuses everything else.

* **`Reads read Means Follow`** — what is meant by that: what is read was derived, what is derived
  is read when it is followed as the grammar has it, and a refusal names a token that was there or
  the end;
* `reads_list`, `reads_comparison`, `reads_chain`, `reads_negation` — one step for each reader, in
  terms of the readers it calls;
* **`ofTokens_iff_derives`** — all tokens are read as the expression that they derive. -/

namespace FormScaffold.Expression

/-- **What it is to read a symbol.** -/
structure Reads {α : Type} (read : Reader α) (Means : List Terminal → α → Prop)
    (Follow : List Token → Prop) : Prop where
  /-- What is read was derived. -/
  sound : ∀ {ts x rest}, read ts = .ok (x, rest) →
    ∃ used, ts = used ++ rest.1 ∧ Means (terminals used) x
  /-- What is derived is read. -/
  complete : ∀ {used rest x}, Means (terminals used) x → Follow rest →
    ∃ h, read (used ++ rest) = .ok (x, ⟨rest, h⟩)
  /-- A refusal names a token, or the end of the tokens. -/
  refusal : ∀ {ts r}, read ts = .error r → r.rest <:+ ts

/-- No tokens, no terminals. -/
@[simp] theorem terminals_nil : terminals [] = [] := rfl

/-- The terminals of tokens, one by one. -/
@[simp] theorem terminals_cons (t : Token) (ts : List Token) :
    terminals (t :: ts) = t.terminal :: terminals ts := rfl

/-- The terminals of tokens one behind the other. -/
@[simp] theorem terminals_append (ts us : List Token) :
    terminals (ts ++ us) = terminals ts ++ terminals us := List.map_append

/-- Where the terminals are cut, the tokens can be cut. -/
theorem terminals_eq_append {ts : List Token} {us vs : List Terminal}
    (h : terminals ts = us ++ vs) : ∃ a b, ts = a ++ b ∧ terminals a = us ∧ terminals b = vs :=
  List.map_eq_append_iff.1 h

/-- The first terminal is that of the first token. -/
theorem terminals_eq_cons {ts : List Token} {u : Terminal} {us : List Terminal}
    (h : terminals ts = u :: us) :
    ∃ t rest, ts = t :: rest ∧ t.terminal = u ∧ terminals rest = us :=
  List.map_eq_cons_iff.1 h

/-- Only no tokens have no terminals. -/
theorem terminals_eq_nil {ts : List Token} (h : terminals ts = []) : ts = [] :=
  List.map_eq_nil_iff.1 h

/-- What is left is shorter than what was read, so this need not be shown once it is read. -/
theorem exists_rest {α : Type} {ts rest : List Token} {y : Except Refusal (α × Rest ts)} {x : α}
    {left : Rest ts} (h : y = .ok (x, left)) (hrest : left.1 = rest) :
    ∃ h, y = .ok (x, ⟨rest, h⟩) := by
  subst hrest
  exact ⟨left.2, h⟩

/-! ## Lists -/

/-- The items of a list with its closing bracket, one after the other. -/
inductive IsItems : List Terminal → List Value → Prop where
  | close : IsItems [.mark .closeList] []
  | last (v : Value) : IsItems [.literal v, .mark .closeList] [v]
  | more (v : Value) {ts : List Terminal} {vs : List Value} (h : IsItems ts vs) :
    IsItems (.literal v :: .mark .comma :: ts) (v :: vs)

/-- A literal that is not the last one has a comma behind it. -/
theorem commaSeparated_cons_cons (v w : Value) (vs : List Value) :
    commaSeparated (v :: w :: vs) = .literal v :: .mark .comma :: commaSeparated (w :: vs) := by
  simp [commaSeparated, List.intercalate]

/-- Items are literals with commas between them, and one may stand after the last. -/
theorem IsItems.eq {ts : List Terminal} {vs : List Value} (h : IsItems ts vs) :
    ts = commaSeparated vs ++ [.mark .closeList] ∨
      vs ≠ [] ∧ ts = commaSeparated vs ++ [.mark .comma, .mark .closeList] := by
  induction h with
  | close => exact .inl rfl
  | last v => exact .inl rfl
  | @more v ts vs _ ih =>
    cases vs with
    | nil =>
      rcases ih with rfl | ⟨hne, -⟩
      · exact .inr ⟨by simp, rfl⟩
      · exact absurd rfl hne
    | cons w vs =>
      rw [commaSeparated_cons_cons]
      rcases ih with rfl | ⟨-, rfl⟩
      · exact .inl rfl
      · exact .inr ⟨by simp, rfl⟩

/-- A list is an opening bracket with items after it. -/
theorem isList_iff {ts : List Terminal} {vs : List Value} :
    IsList ts vs ↔ ∃ us, ts = .mark .openList :: us ∧ IsItems us vs := by
  constructor
  · rintro (vs | ⟨v, vs⟩)
    · refine ⟨_, rfl, ?_⟩
      induction vs with
      | nil => exact .close
      | cons v vs ih =>
        cases vs with
        | nil => exact .last v
        | cons w vs =>
          rw [commaSeparated_cons_cons]
          exact .more v ih
    · refine ⟨_, rfl, ?_⟩
      induction vs generalizing v with
      | nil => exact .more v .close
      | cons w vs ih =>
        rw [commaSeparated_cons_cons]
        exact .more v (ih w)
  · rintro ⟨us, rfl, h⟩
    -- The items end in the closing bracket, or in a comma before it.
    rcases h.eq with rfl | ⟨hne, rfl⟩
    · exact .plain vs
    · cases vs with
      | nil => exact absurd rfl hne
      | cons v vs => exact .trailing v vs

/-- What is read as items was items up to a closing bracket. -/
theorem sound_readItems {ts : List Token} {vs : List Value} {left : Rest ts}
    (h : readItems ts = .ok (vs, left)) :
    ∃ used, ts = used ++ left.1 ∧ IsItems (terminals used) vs := by
  -- The cases of the reader: the closing bracket, an item and a comma, a last item, two refusals.
  induction ts using readItems.induct generalizing vs with
  | case1 => simp [readItems] at h
  | case2 position rest =>
    rw [readItems] at h
    cases h
    exact ⟨[⟨.mark .closeList, position⟩], rfl, .close⟩
  | case3 v i j rest ih =>
    rw [readItems] at h
    obtain ⟨⟨ws, left', hleft⟩, hrest, h⟩ := bind_eq_ok.1 h
    cases h
    obtain ⟨used, hused, hitems⟩ := ih hrest
    exact ⟨⟨.literal v, i⟩ :: ⟨.mark .comma, j⟩ :: used, by simpa using hused, .more v hitems⟩
  | case4 v i j rest =>
    rw [readItems] at h
    cases h
    exact ⟨[⟨.literal v, i⟩, ⟨.mark .closeList, j⟩], rfl, .last v⟩
  | case5 v i rest h1 h2 =>
    rw [readItems] at h
    · cases h
    · exact h1
    · exact h2
  | case6 t rest h1 h2 h3 h4 =>
    rw [readItems] at h
    · cases h
    all_goals assumption

/-- Items up to a closing bracket are read. -/
theorem complete_readItems {used rest : List Token} {vs : List Value}
    (h : IsItems (terminals used) vs) :
    ∃ h, readItems (used ++ rest) = .ok (vs, ⟨rest, h⟩) := by
  -- The terminals say which tokens were used, up to their spellings and positions.
  generalize hts : terminals used = ts at h
  induction h generalizing used with
  | close =>
    obtain ⟨⟨_, i⟩, used, rfl, h1, h2⟩ := terminals_eq_cons hts
    obtain rfl := terminals_eq_nil h2
    obtain rfl := Lexeme.terminal_eq_mark.1 h1
    exact exists_rest rfl rfl
  | last v =>
    obtain ⟨⟨_, i⟩, used, rfl, h1, h2⟩ := terminals_eq_cons hts
    obtain ⟨⟨_, j⟩, used, rfl, h3, h4⟩ := terminals_eq_cons h2
    obtain rfl := terminals_eq_nil h4
    obtain rfl := Lexeme.terminal_eq_literal.1 h1
    obtain rfl := Lexeme.terminal_eq_mark.1 h3
    exact exists_rest rfl rfl
  | more v h ih =>
    obtain ⟨⟨_, i⟩, used, rfl, h1, h2⟩ := terminals_eq_cons hts
    obtain ⟨⟨_, j⟩, used, rfl, h3, h4⟩ := terminals_eq_cons h2
    obtain rfl := Lexeme.terminal_eq_literal.1 h1
    obtain rfl := Lexeme.terminal_eq_mark.1 h3
    obtain ⟨hleft, hread⟩ := ih h4
    exact exists_rest (bind_eq_ok.2 ⟨_, hread, rfl⟩) rfl

/-- Items are refused at one of their tokens or at the end. -/
theorem refusal_readItems {ts : List Token} {r : Refusal} (h : readItems ts = .error r) :
    r.rest <:+ ts := by
  induction ts using readItems.induct with
  | case1 =>
    cases h
    exact List.suffix_refl _
  | case2 position rest =>
    rw [readItems] at h
    cases h
  | case3 v i j rest ih =>
    rw [readItems] at h
    -- The items behind the comma are refused, and what they leave is left here too.
    rcases bind_eq_error.1 h with h | ⟨⟨ws, left', hleft⟩, hrest, h⟩
    · exact (ih h).trans (List.suffix_append [_, _] rest)
    · cases h
  | case4 v i j rest =>
    rw [readItems] at h
    cases h
  | case5 v i rest h1 h2 =>
    rw [readItems] at h
    · cases h
      exact List.suffix_cons _ _
    · exact h1
    · exact h2
  | case6 t rest h1 h2 h3 h4 =>
    rw [readItems] at h
    · cases h
      exact List.suffix_refl _
    all_goals assumption

/-- The items of a list are read up to its closing bracket. -/
theorem reads_items : Reads readItems IsItems fun _ => True where
  sound := sound_readItems
  complete h _ := complete_readItems h
  refusal := refusal_readItems

/-- A list of literals in brackets is read. -/
theorem reads_list : Reads readList IsList fun _ => True where
  sound {ts} := by
    intro vs left h
    unfold readList at h
    split at h
    · rename_i i rest
      obtain ⟨⟨ws, left', hleft⟩, hrest, h⟩ := bind_eq_ok.1 h
      cases h
      obtain ⟨used, hused, hitems⟩ := reads_items.sound hrest
      exact ⟨⟨.mark .openList, i⟩ :: used, by simpa using hused, isList_iff.2 ⟨_, rfl, hitems⟩⟩
    · cases h
  complete {used rest vs} := by
    intro h _
    obtain ⟨us, hus, hitems⟩ := isList_iff.1 h
    -- The first token is the opening bracket, and the items are read behind it.
    obtain ⟨⟨_, i⟩, used, rfl, h1, rfl⟩ := terminals_eq_cons hus
    obtain rfl := Lexeme.terminal_eq_mark.1 h1
    obtain ⟨hleft, hread⟩ : ∃ h, readItems (used ++ rest) = .ok (vs, ⟨rest, h⟩) :=
      complete_readItems hitems
    exact exists_rest (bind_eq_ok.2 ⟨_, hread, rfl⟩) rfl
  refusal {ts} := by
    intro r h
    unfold readList at h
    split at h
    · rcases bind_eq_error.1 h with h | ⟨⟨ws, left', hleft⟩, hrest, h⟩
      · exact (reads_items.refusal h).trans (List.suffix_cons _ _)
      · cases h
    · cases h
      exact List.suffix_refl _

/-! ## Operands -/

/-- A field is refused when a point or an opening bracket stands after it. -/
theorem afterField_of_follows {ts : List Token} (h : Follows .operand ts) :
    afterField ts = none := by
  unfold afterField
  split
  · exact absurd (h _ rfl) (by simp [Token.terminal, Lexeme.terminal, Symbol.mayPrecede])
  · exact absurd (h _ rfl) (by simp [Token.terminal, Lexeme.terminal, Symbol.mayPrecede])
  · exact absurd (h _ rfl) (by simp [Token.terminal, Lexeme.terminal, Symbol.mayPrecede])
  · rfl

/-- A field is read by itself just when nothing behind it makes more of it. -/
theorem fieldBefore_eq_ok {name : String} {ts : List Token} {rest left : Rest ts} {e : Expression} :
    fieldBefore name rest = .ok (e, left) ↔
      afterField rest.1 = none ∧ e = .field name ∧ left = rest := by
  unfold fieldBefore
  cases afterField rest.1 with
  | some cause => simp
  | none => simp [eq_comm]

/-- A field is refused at what stands behind it. -/
theorem fieldBefore_eq_error {name : String} {ts : List Token} {rest : Rest ts} {r : Refusal}
    (h : fieldBefore name rest = .error r) : r.rest = rest.1 := by
  unfold fieldBefore at h
  split at h
  · cases h
    rfl
  · cases h

/-- A field is its name, or the word `doc`, a point and its name. -/
theorem sound_readField {name : String} {ts : List Token} {rest left : Rest ts} {e : Expression}
    (h : readField name rest = .ok (e, left)) :
    (e = .field name ∧ left.1 = rest.1) ∨
      name = "doc" ∧ ∃ i inner j, rest.1 = ⟨.mark .point, i⟩ :: ⟨.name inner, j⟩ :: left.1 ∧
        e = .field inner := by
  unfold readField at h
  split at h
  · rename_i hdoc
    split at h
    · rename_i i inner j left' hleft hrest _
      obtain ⟨-, rfl, rfl⟩ := fieldBefore_eq_ok.1 h
      exact .inr ⟨beq_iff_eq.1 hdoc, i, inner, j, hrest, rfl⟩
    · cases h
    · obtain ⟨-, rfl, rfl⟩ := fieldBefore_eq_ok.1 h
      exact .inl ⟨rfl, rfl⟩
  · obtain ⟨-, rfl, rfl⟩ := fieldBefore_eq_ok.1 h
    exact .inl ⟨rfl, rfl⟩

/-- A field is refused at a token that was there, or at the end. -/
theorem refusal_readField {name : String} {ts : List Token} {rest : Rest ts} {r : Refusal}
    (h : readField name rest = .error r) : r.rest <:+ rest.1 := by
  unfold readField at h
  split at h
  · split at h
    · rename_i hrest _
      rw [fieldBefore_eq_error h, hrest]
      exact List.suffix_append [_, _] _
    · rename_i hrest _
      cases h
      rw [hrest]
      exact List.suffix_cons _ _
    · exact fieldBefore_eq_error h ▸ List.suffix_refl _
  · exact fieldBefore_eq_error h ▸ List.suffix_refl _

/-- The insides of groups, with so many levels left outside of them. -/
def Inside (depth : Nat) (ts : List Terminal) (e : Expression) : Prop :=
  ∃ inner, depth = inner + 1 ∧ Derives inner .disjunction ts e

/-- Before a point there is no operand of which the point is not a part. -/
theorem complete_readField {name : String} {ts : List Token} {rest : Rest ts}
    (h : Follows .operand rest.1) : readField name rest = .ok (.field name, rest) := by
  have hfield : fieldBefore name rest = .ok (.field name, rest) :=
    fieldBefore_eq_ok.2 ⟨afterField_of_follows h, rfl, rfl⟩
  unfold readField
  split
  · split
    · rename_i hrest _
      rw [hrest] at h
      exact absurd (h _ rfl) Bool.false_ne_true
    · rename_i hrest _
      rw [hrest] at h
      exact absurd (h _ rfl) Bool.false_ne_true
    · exact hfield
  · exact hfield

section Operand

variable {inner : Reader Expression} {depth : Nat}
  (hinner : Reads inner (Inside depth) (Follows .disjunction))
include hinner

/-- What is read as an operand was one. -/
theorem sound_readOperand {ts : List Token} {e : Expression} {left : Rest ts}
    (h : readOperand inner ts = .ok (e, left)) :
    ∃ used, ts = used ++ left.1 ∧ Derives depth .operand (terminals used) e := by
  unfold readOperand at h
  split at h
  · rename_i v i rest
    cases h
    exact ⟨[⟨.literal v, i⟩], rfl, .literal v⟩
  · rename_i name i rest
    -- A name stands alone, or behind the word for the document and a point.
    rcases sound_readField h with ⟨rfl, hleft⟩ | ⟨rfl, j, text, k, hrest, rfl⟩
    · exact ⟨[⟨.name name, i⟩], by rw [hleft]; rfl, .name name⟩
    · exact ⟨[⟨.name "doc", i⟩, ⟨.mark .point, j⟩, ⟨.name text, k⟩],
        congrArg (List.cons _) hrest, .docName text⟩
  · rename_i i rest
    obtain ⟨⟨e', rest', hrest'⟩, hread, h⟩ := bind_eq_ok.1 h
    obtain ⟨used, hused, d, rfl, hderives⟩ := hinner.sound hread
    simp only at h hused
    split at h
    · rename_i j after hafter
      cases h
      refine ⟨⟨.mark .openGroup, i⟩ :: used ++ [⟨.mark .closeGroup, j⟩], ?_, ?_⟩
      · simp [hused]
      · rw [List.cons_append, terminals_cons, terminals_append]
        exact .group hderives
    · cases h
  · cases h
  · cases h

/-- An operand is read when what may follow one stands behind it. -/
theorem complete_readOperand {used rest : List Token} {e : Expression}
    (h : Derives depth .operand (terminals used) e) (hfollow : Follows .operand rest) :
    ∃ h, readOperand inner (used ++ rest) = .ok (e, ⟨rest, h⟩) := by
  generalize hts : terminals used = ts at h
  cases h with
  | literal v =>
    obtain ⟨⟨_, i⟩, used, rfl, h1, h2⟩ := terminals_eq_cons hts
    obtain rfl := terminals_eq_nil h2
    obtain rfl := Lexeme.terminal_eq_literal.1 h1
    exact exists_rest rfl rfl
  | name text =>
    obtain ⟨⟨_, i⟩, used, rfl, h1, h2⟩ := terminals_eq_cons hts
    obtain rfl := terminals_eq_nil h2
    obtain rfl := Lexeme.terminal_eq_name.1 h1
    exact ⟨by simp, complete_readField hfollow⟩
  | docName text =>
    obtain ⟨⟨_, i⟩, used, rfl, h1, h2⟩ := terminals_eq_cons hts
    obtain ⟨⟨_, j⟩, used, rfl, h3, h4⟩ := terminals_eq_cons h2
    obtain ⟨⟨_, k⟩, used, rfl, h5, h6⟩ := terminals_eq_cons h4
    obtain rfl := terminals_eq_nil h6
    obtain rfl := Lexeme.terminal_eq_name.1 h1
    obtain rfl := Lexeme.terminal_eq_mark.1 h3
    obtain rfl := Lexeme.terminal_eq_name.1 h5
    exact exists_rest (fieldBefore_eq_ok.2 ⟨afterField_of_follows hfollow, rfl, rfl⟩) rfl
  | @group d us e h =>
    obtain ⟨⟨_, i⟩, used, rfl, h1, h2⟩ := terminals_eq_cons hts
    obtain ⟨used, last, rfl, rfl, h4⟩ := terminals_eq_append h2
    obtain ⟨⟨_, j⟩, last, rfl, h5, h6⟩ := terminals_eq_cons h4
    obtain rfl := terminals_eq_nil h6
    obtain rfl := Lexeme.terminal_eq_mark.1 h1
    obtain rfl := Lexeme.terminal_eq_mark.1 h5
    -- Behind the inside of a group stands its end, so that the inside was read to its end.
    have hclose : Follows .disjunction (⟨.mark .closeGroup, j⟩ :: rest) := by
      rintro t ⟨⟩
      rfl
    obtain ⟨hleft, hread⟩ := hinner.complete ⟨d, rfl, h⟩ hclose
    rw [List.cons_append, List.append_assoc, List.singleton_append]
    exact exists_rest (bind_eq_ok.2 ⟨_, hread, rfl⟩) rfl

/-- An operand is refused at one of the tokens or at their end. -/
theorem refusal_readOperand {ts : List Token} {r : Refusal}
    (h : readOperand inner ts = .error r) : r.rest <:+ ts := by
  unfold readOperand at h
  split at h
  · cases h
  · exact (refusal_readField h).trans (List.suffix_cons _ _)
  · rename_i i rest
    rcases bind_eq_error.1 h with h | ⟨⟨e', rest', hrest'⟩, hread, h⟩
    · exact (hinner.refusal h).trans (List.suffix_cons _ _)
    · -- The inside was read, and no end of the group stands where it ended.
      obtain ⟨used, hused, -⟩ := hinner.sound hread
      simp only at h hused
      split at h
      · cases h
      · cases h
        rw [hused]
        exact (List.suffix_append _ _).trans (List.suffix_cons _ _)
  · cases h
    exact List.suffix_refl _
  · cases h
    exact List.suffix_refl _

/-! ## Comparisons -/

/-- What is read as a comparison was one. -/
theorem sound_readComparison {ts : List Token} {e : Expression} {left : Rest ts}
    (h : readComparison inner ts = .ok (e, left)) :
    ∃ used, ts = used ++ left.1 ∧ Derives depth .comparison (terminals used) e := by
  replace h := bind_eq_ok.1 h
  obtain ⟨⟨l, rest, hrest⟩, hread, h⟩ := h
  obtain ⟨used, hused, hl⟩ := sound_readOperand hinner hread
  simp only at h hused
  clear hread
  -- What stands behind the first operand decides what else is read.
  split at h
  · rename_i op s i after hafter
    replace h := bind_eq_ok.1 h
    obtain ⟨⟨r, left', hleft⟩, hread, h⟩ := h
    obtain ⟨used', hused', hr⟩ := sound_readOperand hinner hread
    cases h
    refine ⟨used ++ ⟨.comparator op s, i⟩ :: used', by simp [hused, hused'], ?_⟩
    rw [terminals_append, terminals_cons]
    exact .compared op hl hr
  · rename_i i after hafter
    replace h := bind_eq_ok.1 h
    obtain ⟨⟨vs, left', hleft⟩, hread, h⟩ := h
    obtain ⟨used', hused', hvs⟩ := reads_list.sound hread
    cases h
    refine ⟨used ++ ⟨.within, i⟩ :: used', by simp [hused, hused'], ?_⟩
    rw [terminals_append, terminals_cons]
    exact .within hl hvs
  · rename_i s i j after hafter
    replace h := bind_eq_ok.1 h
    obtain ⟨⟨vs, left', hleft⟩, hread, h⟩ := h
    obtain ⟨used', hused', hvs⟩ := reads_list.sound hread
    cases h
    refine ⟨used ++ ⟨.neg s, i⟩ :: ⟨.within, j⟩ :: used', by simp [hused, hused'], ?_⟩
    rw [terminals_append, terminals_cons, terminals_cons]
    exact .notWithin hl hvs
  · cases h
    exact ⟨used, hused, .alone hl⟩

/-- The first operand of a comparison is read up to the token that compares it: what compares an
operand is no part of one. -/
theorem exists_readOperand {used rest : List Token} {us vs : List Terminal} {v : Terminal}
    {l : Expression} (hl : Derives depth .operand us l)
    (hv : Symbol.operand.mayPrecede v = true) (hts : terminals used = us ++ v :: vs) :
    ∃ front t back, used = front ++ t :: back ∧ t.terminal = v ∧ terminals back = vs ∧
      ∃ h, readOperand inner (front ++ t :: (back ++ rest)) =
        .ok (l, ⟨t :: (back ++ rest), h⟩) := by
  obtain ⟨front, used', rfl, rfl, h⟩ := terminals_eq_append hts
  obtain ⟨t, back, rfl, rfl, rfl⟩ := terminals_eq_cons h
  refine ⟨front, t, back, rfl, rfl, rfl, complete_readOperand hinner hl ?_⟩
  rintro t' ⟨⟩
  exact hv

/-- A comparison is read when what may follow one stands behind it. -/
theorem complete_readComparison {used rest : List Token} {e : Expression}
    (h : Derives depth .comparison (terminals used) e) (hfollow : Follows .comparison rest) :
    ∃ h, readComparison inner (used ++ rest) = .ok (e, ⟨rest, h⟩) := by
  generalize hts : terminals used = ts at h
  cases h with
  | compared op hl hr =>
    obtain ⟨front, ⟨_, i⟩, back, rfl, h1, rfl, hleft, hread⟩ :=
      exists_readOperand hinner hl rfl hts
    obtain ⟨s, rfl⟩ := Lexeme.terminal_eq_comparator.1 h1
    obtain ⟨hleft', hread'⟩ := complete_readOperand hinner hr hfollow.part
    rw [List.append_assoc, List.cons_append]
    exact exists_rest (bind_eq_ok.2 ⟨_, hread, bind_eq_ok.2 ⟨_, hread', rfl⟩⟩) rfl
  | within hl hvs =>
    obtain ⟨front, ⟨_, i⟩, back, rfl, h1, rfl, hleft, hread⟩ :=
      exists_readOperand hinner hl rfl hts
    obtain rfl := Lexeme.terminal_eq_within.1 h1
    obtain ⟨hleft', hread'⟩ := reads_list.complete hvs trivial
    rw [List.append_assoc, List.cons_append]
    exact exists_rest (bind_eq_ok.2 ⟨_, hread, bind_eq_ok.2 ⟨_, hread', rfl⟩⟩) rfl
  | notWithin hl hvs =>
    obtain ⟨front, ⟨_, i⟩, back, rfl, h1, h2, hleft, hread⟩ :=
      exists_readOperand hinner hl rfl hts
    obtain ⟨⟨_, j⟩, back, rfl, h3, rfl⟩ := terminals_eq_cons h2
    obtain ⟨s, rfl⟩ := Lexeme.terminal_eq_neg.1 h1
    obtain rfl := Lexeme.terminal_eq_within.1 h3
    obtain ⟨hleft', hread'⟩ := reads_list.complete hvs trivial
    rw [List.append_assoc, List.cons_append, List.cons_append]
    exact exists_rest (bind_eq_ok.2 ⟨_, hread, bind_eq_ok.2 ⟨_, hread', rfl⟩⟩) rfl
  | alone h =>
    subst hts
    obtain ⟨hleft, hread⟩ := complete_readOperand hinner h hfollow.part
    -- No comparator stands behind what is left, since it may follow the comparison.
    refine ⟨hleft, bind_eq_ok.2 ⟨_, hread, ?_⟩⟩
    simp only
    split
    · exact absurd (hfollow _ rfl) Bool.false_ne_true
    · exact absurd (hfollow _ rfl) Bool.false_ne_true
    · exact absurd (hfollow _ rfl) Bool.false_ne_true
    · rfl

/-- A comparison is refused at one of the tokens or at their end. -/
theorem refusal_readComparison {ts : List Token} {r : Refusal}
    (h : readComparison inner ts = .error r) : r.rest <:+ ts := by
  rcases bind_eq_error.1 h with h | ⟨⟨l, rest, hrest⟩, hread, h⟩
  · exact refusal_readOperand hinner h
  · obtain ⟨used, hused, -⟩ := sound_readOperand hinner hread
    simp only at h hused
    have hsuffix : rest <:+ ts := hused ▸ List.suffix_append _ _
    clear hread
    split at h
    · rcases bind_eq_error.1 h with h | ⟨_, _, h⟩
      · exact (refusal_readOperand hinner h).trans ((List.suffix_cons _ _).trans hsuffix)
      · cases h
    · rcases bind_eq_error.1 h with h | ⟨_, _, h⟩
      · exact (reads_list.refusal h).trans ((List.suffix_cons _ _).trans hsuffix)
      · cases h
    · rcases bind_eq_error.1 h with h | ⟨_, _, h⟩
      · exact (reads_list.refusal h).trans ((List.suffix_append [_, _] _).trans hsuffix)
      · cases h
    · cases h

/-- **Comparisons are read** when the insides of groups are. An operand alone is a comparison as
well; whether more is read is decided by the token behind the first operand. -/
theorem reads_comparison :
    Reads (readComparison inner) (Derives depth .comparison) (Follows .comparison) where
  sound := sound_readComparison hinner
  complete := complete_readComparison hinner
  refusal := refusal_readComparison hinner

end Operand

/-! ## Chains -/

/-- What a chain of parts means. -/
def IsChainOf (sep : Terminal) (Means : List Terminal → Expression → Prop) (ts : List Terminal)
    (es : List Expression) : Prop :=
  ∃ parts : List (List Terminal × Expression), parts ≠ [] ∧ (∀ p ∈ parts, Means p.1 p.2) ∧
    ts = [sep].intercalate (parts.map (·.1)) ∧ es = parts.map (·.2)

namespace IsChainOf

variable {sep : Terminal} {Means : List Terminal → Expression → Prop} {ts us : List Terminal}
  {e : Expression} {es : List Expression}

/-- A part is a chain. -/
theorem part (h : Means ts e) : IsChainOf sep Means ts [e] :=
  ⟨[(ts, e)], by simp, by simpa using h, by simp [List.intercalate], rfl⟩

/-- A part and what joins it to a chain make a longer one. -/
theorem joined (h : Means ts e) (hchain : IsChainOf sep Means us es) :
    IsChainOf sep Means (ts ++ sep :: us) (e :: es) := by
  obtain ⟨parts, hne, hparts, rfl, rfl⟩ := hchain
  refine ⟨(ts, e) :: parts, by simp, List.forall_mem_cons.2 ⟨h, hparts⟩, ?_, rfl⟩
  obtain ⟨q, parts, rfl⟩ := List.exists_cons_of_ne_nil hne
  simp only [List.map_cons, List.intercalate_cons_cons, List.append_assoc, List.singleton_append]

/-- A chain is a part, or a part that is joined to a chain. -/
theorem cases (h : IsChainOf sep Means ts es) :
    (∃ e, Means ts e ∧ es = [e]) ∨
      ∃ us vs e es', ts = us ++ sep :: vs ∧ es = e :: es' ∧ Means us e ∧
        IsChainOf sep Means vs es' := by
  obtain ⟨parts, hne, hparts, rfl, rfl⟩ := h
  match parts with
  | [] => exact absurd rfl hne
  | [p] =>
    refine .inl ⟨p.2, ?_, rfl⟩
    simpa [List.intercalate] using hparts p List.mem_cons_self
  | p :: q :: parts =>
    refine .inr ⟨p.1, [sep].intercalate ((q :: parts).map (·.1)), p.2, (q :: parts).map (·.2), ?_,
      rfl, hparts p List.mem_cons_self, q :: parts, by simp,
      fun r hr => hparts r (List.mem_cons_of_mem _ hr), rfl, rfl⟩
    simp only [List.map_cons, List.intercalate_cons_cons, List.append_assoc,
      List.singleton_append]

end IsChainOf

section Chain

variable {joins : Lexeme → Bool} {sep : Terminal} {part : Reader Expression}
  {Means : List Terminal → Expression → Prop} {PartFollow Follow : List Token → Prop}
  (hpart : Reads part Means PartFollow)
include hpart

/-- What is read as a chain was one. -/
theorem sound_readChain (hjoins : ∀ l, joins l = true ↔ l.terminal = sep) {ts : List Token}
    {es : List Expression} {left : Rest ts} (h : readChain joins part ts = .ok (es, left)) :
    ∃ used, ts = used ++ left.1 ∧ IsChainOf sep Means (terminals used) es := by
  induction ts using readChain.induct generalizing es with
  | case1 ts ih =>
    rw [readChain] at h
    replace h := bind_eq_ok.1 h
    obtain ⟨⟨e, rest, hrest⟩, hread, h⟩ := h
    obtain ⟨used, hused, hmeans⟩ := hpart.sound hread
    simp only at h hused
    clear hread
    split at h
    · rename_i t after hafter
      split at h
      · rename_i hjoin
        replace h := bind_eq_ok.1 h
        -- A part, what joins it to the next one, and the rest of the chain by induction.
        obtain ⟨⟨es', left', hleft⟩, hread, h⟩ := h
        obtain ⟨used', hused', hchain⟩ := ih t after hafter hread
        cases h
        refine ⟨used ++ t :: used', by simp [hused, hused'], ?_⟩
        rw [terminals_append, terminals_cons, Token.terminal, (hjoins _).1 hjoin]
        exact .joined hmeans hchain
      · cases h
        exact ⟨used, hused, .part hmeans⟩
    · cases h
      exact ⟨used, hused, .part hmeans⟩

/-- A chain is read when what may follow it stands behind it. -/
theorem complete_readChain (hjoins : ∀ l, joins l = true ↔ l.terminal = sep)
    (hsep : ∀ t rest, joins t.lexeme = true → PartFollow (t :: rest))
    (hfollow : ∀ rest, Follow rest → PartFollow rest)
    (hstop : ∀ t rest, Follow (t :: rest) → joins t.lexeme = false)
    {used rest : List Token} {es : List Expression}
    (h : IsChainOf sep Means (terminals used) es) (hrest : Follow rest) :
    ∃ h, readChain joins part (used ++ rest) = .ok (es, ⟨rest, h⟩) := by
  induction es generalizing used with
  | nil =>
    obtain ⟨parts, hne, -, -, hes⟩ := h
    exact absurd (List.map_eq_nil_iff.1 hes.symm) hne
  | cons e es ih =>
    rw [readChain]
    rcases h.cases with ⟨e', hmeans, hes⟩ | ⟨us, vs, e', es', hts, hes, hmeans, hchain⟩
    · obtain ⟨rfl, rfl⟩ := List.cons.inj hes
      -- A part that is the last one is followed by what may follow the chain.
      obtain ⟨hleft, hread⟩ := hpart.complete hmeans (hfollow _ hrest)
      refine ⟨hleft, bind_eq_ok.2 ⟨_, hread, ?_⟩⟩
      simp only
      split
      · rw [hstop _ _ hrest]
        rfl
      · rfl
    · obtain ⟨rfl, rfl⟩ := List.cons.inj hes
      obtain ⟨used, used', rfl, rfl, h⟩ := terminals_eq_append hts
      obtain ⟨t, used', rfl, hsepa, rfl⟩ := terminals_eq_cons h
      have hjoin : joins t.lexeme = true := (hjoins _).2 hsepa
      obtain ⟨hleft, hread⟩ := hpart.complete hmeans (hsep t (used' ++ rest) hjoin)
      obtain ⟨hleft', hread'⟩ := ih hchain
      rw [List.append_assoc, List.cons_append]
      exact exists_rest
        (bind_eq_ok.2 ⟨_, hread, (if_pos hjoin).trans (bind_eq_ok.2 ⟨_, hread', rfl⟩)⟩) rfl

/-- A chain is refused at one of the tokens or at their end. -/
theorem refusal_readChain {ts : List Token} {r : Refusal}
    (h : readChain joins part ts = .error r) : r.rest <:+ ts := by
  induction ts using readChain.induct with
  | case1 ts ih =>
    rw [readChain] at h
    rcases bind_eq_error.1 h with h | ⟨⟨e, rest, hrest⟩, hread, h⟩
    · exact hpart.refusal h
    · obtain ⟨used, hused, -⟩ := hpart.sound hread
      simp only at h hused
      clear hread
      split at h
      · rename_i t after hafter
        split at h
        · rcases bind_eq_error.1 h with h | ⟨_, _, h⟩
          · rw [hused]
            exact (ih t after hafter h).trans
              ((List.suffix_cons _ _).trans (List.suffix_append _ _))
          · cases h
        · cases h
      · cases h

/-- **Chains are read** when their parts are, and may be followed by what joins them and by what
follows the chain. The induction is on the tokens: behind what joins the parts, the rest of the
chain is shorter. -/
theorem reads_chain (hjoins : ∀ l, joins l = true ↔ l.terminal = sep)
    (hsep : ∀ t rest, joins t.lexeme = true → PartFollow (t :: rest))
    (hfollow : ∀ rest, Follow rest → PartFollow rest)
    (hstop : ∀ t rest, Follow (t :: rest) → joins t.lexeme = false) :
    Reads (readChain joins part) (IsChainOf sep Means) Follow where
  sound := sound_readChain hpart hjoins
  complete := complete_readChain hpart hjoins hsep hfollow hstop
  refusal := refusal_readChain hpart

end Chain

/-! ## Negations and what is made of them -/

/-- Reading a chain and making one expression of it. -/
theorem reads_ofChain {read : Reader Expression} {readParts : Reader (List Expression)}
    {join : List Expression → Expression} {Means : List Terminal → List Expression → Prop}
    {Follow : List Token → Prop} (h : Reads readParts Means Follow)
    (hread : ∀ ts, read ts = do
      let (es, rest) ← readParts ts
      return (ofChain join es, rest)) :
    Reads read (fun ts e => ∃ es, Means ts es ∧ e = ofChain join es) Follow where
  sound {ts e left} := by
    intro hts
    rw [hread] at hts
    replace hts := bind_eq_ok.1 hts
    obtain ⟨⟨es, rest⟩, hparts, hts⟩ := hts
    cases hts
    obtain ⟨used, hused, hmeans⟩ := h.sound hparts
    exact ⟨used, hused, es, hmeans, rfl⟩
  complete := by
    rintro used rest e ⟨es, hmeans, rfl⟩ hrest
    obtain ⟨hleft, hparts⟩ := h.complete hmeans hrest
    rw [hread]
    exact ⟨hleft, bind_eq_ok.2 ⟨_, hparts, rfl⟩⟩
  refusal {ts r} := by
    intro hts
    rw [hread] at hts
    rcases bind_eq_error.1 hts with hts | ⟨_, _, hts⟩
    · exact h.refusal hts
    · cases hts

/-- Symbols that mean the same are read alike. -/
theorem Reads.of_iff {α : Type} {read : Reader α} {Means Means' : List Terminal → α → Prop}
    {Follow : List Token → Prop} (h : Reads read Means Follow)
    (hiff : ∀ ts x, Means' ts x ↔ Means ts x) : Reads read Means' Follow where
  sound hts := by
    obtain ⟨used, hused, hmeans⟩ := h.sound hts
    exact ⟨used, hused, (hiff _ _).2 hmeans⟩
  complete hmeans hrest := h.complete ((hiff _ _).1 hmeans) hrest
  refusal := h.refusal

/-- A conjunction is a chain of negations. -/
theorem derives_conjunction_iff {depth : Nat} {ts : List Terminal} {e : Expression} :
    Derives depth .conjunction ts e ↔
      ∃ es, IsChainOf .conj (Derives depth .negation) ts es ∧ e = ofChain .all es := by
  constructor
  · rintro (_ | ⟨parts, hne, hparts⟩)
    exact ⟨_, ⟨parts, hne, hparts, rfl, rfl⟩, rfl⟩
  · rintro ⟨_, ⟨parts, hne, hparts, rfl, rfl⟩, rfl⟩
    exact .conjunction parts hne hparts

/-- A disjunction is a chain of conjunctions. -/
theorem derives_disjunction_iff {depth : Nat} {ts : List Terminal} {e : Expression} :
    Derives depth .disjunction ts e ↔
      ∃ es, IsChainOf .disj (Derives depth .conjunction) ts es ∧ e = ofChain .any es := by
  constructor
  · rintro (⟨parts, hne, hparts⟩ | _)
    exact ⟨_, ⟨parts, hne, hparts, rfl, rfl⟩, rfl⟩
  · rintro ⟨_, ⟨parts, hne, hparts, rfl, rfl⟩, rfl⟩
    exact .disjunction parts hne hparts

/-- The lexemes that join conjunctions are those of their terminal. -/
theorem Lexeme.isConj_iff (l : Lexeme) : l.isConj = true ↔ l.terminal = .conj := by
  cases l <;> simp [Lexeme.isConj, Lexeme.terminal]

/-- The lexemes that join disjunctions are those of their terminal. -/
theorem Lexeme.isDisj_iff (l : Lexeme) : l.isDisj = true ↔ l.terminal = .disj := by
  cases l <;> simp [Lexeme.isDisj, Lexeme.terminal]

/-- **Conjunctions are read** when negations are. A single negation is a chain of one, and is not
wrapped. -/
theorem reads_conjunction {part : Reader Expression} {depth : Nat}
    (h : Reads part (Derives depth .negation) (Follows .negation)) :
    Reads (readConjunction part) (Derives depth .conjunction) (Follows .conjunction) := by
  refine Reads.of_iff (reads_ofChain (reads_chain h Lexeme.isConj_iff ?_ ?_ ?_) fun _ => rfl)
    fun _ _ => derives_conjunction_iff
  · rintro t rest hjoin t' ⟨⟩
    rw [Token.terminal, (Lexeme.isConj_iff _).1 hjoin]
    rfl
  · exact fun _ hfollow => hfollow.part
  · intro t rest hfollow
    cases hjoin : t.lexeme.isConj with
    | false => rfl
    | true =>
      have := hfollow t rfl
      rw [Token.terminal, (Lexeme.isConj_iff _).1 hjoin] at this
      exact absurd this Bool.false_ne_true

/-- **Disjunctions are read** when negations are. A single conjunction is a chain of one, and is not
wrapped. -/
theorem reads_disjunction {part : Reader Expression} {depth : Nat}
    (h : Reads part (Derives depth .negation) (Follows .negation)) :
    Reads (readDisjunction part) (Derives depth .disjunction) (Follows .disjunction) := by
  refine Reads.of_iff
    (reads_ofChain (reads_chain (reads_conjunction h) Lexeme.isDisj_iff ?_ ?_ ?_) fun _ => rfl)
    fun _ _ => derives_disjunction_iff
  · rintro t rest hjoin t' ⟨⟩
    rw [Token.terminal, (Lexeme.isDisj_iff _).1 hjoin]
    rfl
  · exact fun _ hfollow => hfollow.part
  · intro t rest hfollow
    cases hjoin : t.lexeme.isDisj with
    | false => rfl
    | true =>
      have := hfollow t rfl
      rw [Token.terminal, (Lexeme.isDisj_iff _).1 hjoin] at this
      exact absurd this Bool.false_ne_true

/-- What reads the insides of groups, with so many levels left outside of them. -/
def insideReader : Nat → Reader Expression
  | 0 => tooDeep
  | depth + 1 => readDisjunction (readNegation depth)

/-- What does not start with a negation is read as a comparison. -/
theorem readNegation_eq (depth : Nat) {ts : List Token}
    (h : ∀ s i rest, ts ≠ ⟨.neg s, i⟩ :: rest) :
    readNegation depth ts = readComparison (insideReader depth) ts := by
  cases depth <;> rw [readNegation] <;> first | rfl | exact h

/-- No comparison starts with a negation. -/
theorem ne_neg_of_readComparison {inner : Reader Expression} {ts : List Token}
    {r : Expression × Rest ts} (h : readComparison inner ts = .ok r) (s : String) (i : Nat)
    (rest : List Token) : ts ≠ ⟨.neg s, i⟩ :: rest := by
  rintro rfl
  obtain ⟨_, hread, -⟩ := bind_eq_ok.1 h
  cases hread

/-- **One more level**: negations are read when the insides of groups are, and when negations with
one level less are. -/
theorem reads_negation_of_inside {depth : Nat}
    (hinside : Reads (insideReader depth) (Inside depth) (Follows .disjunction))
    (hless : ∀ d, depth = d + 1 →
      Reads (readNegation d) (Derives d .negation) (Follows .negation)) :
    Reads (readNegation depth) (Derives depth .negation) (Follows .negation) where
  sound {ts e left} := by
    intro h
    -- A negation takes one level; what does not start with one is a comparison.
    by_cases hneg : ∃ s i rest, ts = ⟨.neg s, i⟩ :: rest
    · obtain ⟨s, i, rest, rfl⟩ := hneg
      cases depth with
      | zero => cases h
      | succ d =>
        replace h := bind_eq_ok.1 h
        obtain ⟨⟨e', left', hleft⟩, hread, h⟩ := h
        cases h
        obtain ⟨used, hused, hderives⟩ := (hless d rfl).sound hread
        exact ⟨⟨.neg s, i⟩ :: used, by simpa using hused, .negated hderives⟩
    · rw [readNegation_eq depth fun s i rest hts => hneg ⟨s, i, rest, hts⟩] at h
      obtain ⟨used, hused, hderives⟩ := (reads_comparison hinside).sound h
      exact ⟨used, hused, .positive hderives⟩
  complete {used rest e} := by
    intro h hrest
    generalize hts : terminals used = ts at h
    cases h with
    | @negated d us e h =>
      obtain ⟨⟨_, i⟩, used, rfl, h1, rfl⟩ := terminals_eq_cons hts
      obtain ⟨s, rfl⟩ := Lexeme.terminal_eq_neg.1 h1
      obtain ⟨hleft, hread⟩ := (hless d rfl).complete h hrest
      exact exists_rest (bind_eq_ok.2 ⟨_, hread, rfl⟩) rfl
    | positive h =>
      subst hts
      obtain ⟨hleft, hread⟩ := (reads_comparison hinside).complete h hrest.part
      exact ⟨hleft, (readNegation_eq depth (ne_neg_of_readComparison hread)).trans hread⟩
  refusal {ts r} := by
    intro h
    by_cases hneg : ∃ s i rest, ts = ⟨.neg s, i⟩ :: rest
    · obtain ⟨s, i, rest, rfl⟩ := hneg
      cases depth with
      | zero =>
        cases h
        exact List.suffix_cons _ _
      | succ d =>
        rcases bind_eq_error.1 h with h | ⟨_, _, h⟩
        · exact ((hless d rfl).refusal h).trans (List.suffix_cons _ _)
        · cases h
    · rw [readNegation_eq depth fun s i rest hts => hneg ⟨s, i, rest, hts⟩] at h
      exact (reads_comparison hinside).refusal h

/-- **Negations are read**, whatever the number of levels. The induction is on the levels, and each
step allows for one more group or one more `not`. -/
theorem reads_negation (depth : Nat) :
    Reads (readNegation depth) (Derives depth .negation) (Follows .negation) := by
  induction depth with
  | zero =>
    -- Nothing is read inside a negation or a group when no depth is left.
    refine reads_negation_of_inside ⟨?_, ?_, ?_⟩ ?_
    · rintro ts x rest ⟨⟩
    · rintro used rest x ⟨d, hd, -⟩
      exact absurd hd (by simp)
    · rintro ts r ⟨⟩
      exact List.suffix_refl _
    · rintro d ⟨⟩
  | succ depth ih =>
    refine reads_negation_of_inside ((reads_disjunction ih).of_iff ?_) ?_
    · intro ts e
      constructor
      · rintro ⟨d, hd, h⟩
        obtain rfl := Nat.succ.inj hd
        exact h
      · intro h
        exact ⟨depth, rfl, h⟩
    · rintro d hd
      obtain rfl := Nat.succ.inj hd
      exact ih

/-! ## All tokens -/

/-- What is read to the end was derived, and the other way round. -/
theorem ofTokens_eq_ok {ts : List Token} {e : Expression} :
    ofTokens ts = .ok e ↔ Derives maxDepth .disjunction (terminals ts) e := by
  have hreads := reads_disjunction (reads_negation maxDepth)
  constructor
  · intro h
    replace h := bind_eq_ok.1 h
    obtain ⟨⟨e', left, hleft⟩, hread, h⟩ := h
    obtain ⟨used, hused, hderives⟩ := hreads.sound hread
    cases left with
    | nil =>
      cases h
      simp only [List.append_nil] at hused
      exact hused ▸ hderives
    | cons t left => cases h
  · intro h
    have hall : ∃ hleft, readDisjunction (readNegation maxDepth) (ts ++ []) =
        .ok (e, ⟨[], hleft⟩) := hreads.complete h (by rintro t ⟨⟩)
    rw [List.append_nil] at hall
    obtain ⟨hleft, hread⟩ := hall
    exact bind_eq_ok.2 ⟨_, hread, rfl⟩

/-- **A refusal names a token that was there**, or the end of the tokens. The offset in the message
is therefore one of the text. -/
theorem refusal_ofTokens {ts : List Token} {r : Refusal} (h : ofTokens ts = .error r) :
    r.rest <:+ ts := by
  have hreads := reads_disjunction (reads_negation maxDepth)
  rcases bind_eq_error.1 h with h | ⟨⟨e, left, hleft⟩, hread, h⟩
  · exact hreads.refusal h
  · obtain ⟨used, hused, -⟩ := hreads.sound hread
    cases left with
    | nil => cases h
    | cons t left =>
      cases h
      exact hused ▸ List.suffix_append _ _

/-- **Reading accepts exactly the grammar, and builds the one tree that the tokens derive.** Tokens
that derive nothing are refused, at one of them or at their end. -/
theorem ofTokens_iff_derives (ts : List Token) :
    (∀ e, ofTokens ts = .ok e ↔ Derives maxDepth .disjunction (terminals ts) e) ∧
      (∀ e e', Derives maxDepth .disjunction (terminals ts) e →
        Derives maxDepth .disjunction (terminals ts) e' → e = e') ∧
      ((∀ e, ¬Derives maxDepth .disjunction (terminals ts) e) →
        ∃ r, ofTokens ts = .error r ∧ r.rest <:+ ts) := by
  refine ⟨fun e => ofTokens_eq_ok, ?_, ?_⟩
  · intro e e' h h'
    have hsame := (ofTokens_eq_ok.2 h).symm.trans (ofTokens_eq_ok.2 h')
    exact Except.ok.inj hsame
  · intro hnone
    cases h : ofTokens ts with
    | ok e => exact absurd (ofTokens_eq_ok.1 h) (hnone e)
    | error r => exact ⟨r, rfl, refusal_ofTokens h⟩

/-- The spellings of equality, negation and conjunction, and a field with `doc` before it. -/
theorem ofTokens_iff_derives_spelled :
    ofTokens [⟨.neg "!", 0⟩, ⟨.mark .openGroup, 1⟩, ⟨.name "doc", 2⟩, ⟨.mark .point, 5⟩,
        ⟨.name "a", 6⟩, ⟨.comparator .eq "===", 8⟩, ⟨.literal (.int 1), 12⟩,
        ⟨.mark .closeGroup, 13⟩, ⟨.conj "&&", 15⟩, ⟨.name "b", 18⟩] =
      .ok (.all [.not (.compare .eq (.field "a") (.literal (.int 1))), .field "b"]) ∧
    Derives maxDepth .disjunction
      [.neg, .mark .openGroup, .name "doc", .mark .point, .name "a", .comparator .eq,
        .literal (.int 1), .mark .closeGroup, .conj, .name "b"]
      (.all [.not (.compare .eq (.field "a") (.literal (.int 1))), .field "b"]) := by
  have hread : ofTokens [⟨.neg "!", 0⟩, ⟨.mark .openGroup, 1⟩, ⟨.name "doc", 2⟩,
      ⟨.mark .point, 5⟩, ⟨.name "a", 6⟩, ⟨.comparator .eq "===", 8⟩, ⟨.literal (.int 1), 12⟩,
      ⟨.mark .closeGroup, 13⟩, ⟨.conj "&&", 15⟩, ⟨.name "b", 18⟩] =
    .ok (.all [.not (.compare .eq (.field "a") (.literal (.int 1))), .field "b"]) := by cbv
  exact ⟨hread, ((ofTokens_iff_derives _).1 _).1 hread⟩

end FormScaffold.Expression
