import FormScaffold.Expression.Evaluation
import FormScaffold.Proofs.Expression.Lexing
import Mathlib.Data.List.Basic

/-! # The fields that an expression reads

An expression reads the fields that are named in its text, and judges documents by nothing else.

* `references` — the names in the terminals of an expression, without the `doc` before a point;
* `references_of_derives` — the names in the tree are those in the terminals, one by one;
* `holds_congr` — documents that agree on the fields of an expression are judged alike;
* **`fieldNames_of_parseText`** — the three together, for what a text writes. -/

namespace FormScaffold.Expression

/-! ## The names in the terminals -/

/-- Whether the terminal is a point. -/
def Terminal.isPoint : Terminal → Bool
  | .mark .point => true
  | _ => false

/-- **The names of fields among terminals**, from left to right, with repetitions. Every name is one
of a field, but for `doc` with a point directly behind it. -/
def references : List Terminal → List String
  | [] => []
  | .name text :: rest =>
    if text == "doc" && rest.head?.any Terminal.isPoint then references rest
    else text :: references rest
  | _ :: rest => references rest

/-- The names in two parts, when the second one does not start with a point. -/
theorem references_append (us : List Terminal) {vs : List Terminal}
    (hvs : vs.head?.any Terminal.isPoint = false) :
    references (us ++ vs) = references us ++ references vs := by
  induction us with
  | nil => rfl
  | cons u us ih =>
    -- A name at the end of the first part sees no point behind it.
    have hhead : (us ++ vs).head?.any Terminal.isPoint = us.head?.any Terminal.isPoint := by
      cases us with
      | nil => exact hvs
      | cons u us => rw [List.cons_append, List.head?_cons, List.head?_cons]
    cases u with
    | name text =>
      rw [List.cons_append, references, references, hhead, ih]
      split <;> rfl
    | _ => simpa [references] using ih

/-- What joins the parts of a chain names nothing. -/
theorem references_intercalate {sep : Terminal} (hpoint : sep.isPoint = false)
    (hsep : ∀ us, references (sep :: us) = references us) (uss : List (List Terminal)) :
    references ([sep].intercalate uss) = uss.flatMap references := by
  induction uss with
  | nil => rfl
  | cons us uss ih =>
    cases uss with
    | nil => simp
    | cons us' uss =>
      rw [List.intercalate_cons_cons, List.append_assoc, List.singleton_append,
        references_append us (by simpa using hpoint), hsep, ih]
      rfl

/-- The items of a list mention no fields. -/
theorem references_of_isItems {us : List Terminal} {vs : List Value} (h : IsItems us vs) :
    references us = [] := by
  induction h with
  | close => rfl
  | last v => rfl
  | more v h ih => simpa [references] using ih

/-- A list of literals names nothing. -/
theorem references_of_isList {us : List Terminal} {vs : List Value} (h : IsList us vs) :
    references us = [] := by
  obtain ⟨items, rfl, hitems⟩ := isList_iff.1 h
  simpa [references] using references_of_isItems hitems

/-! ## The names in the tree -/

/-- Expressions mention fields one by one. -/
theorem mentionsOf_eq_flatMap (es : List Expression) : mentionsOf es = es.flatMap mentions := by
  induction es with
  | nil => rw [mentionsOf, List.flatMap_nil]
  | cons e es ih => rw [mentionsOf, List.flatMap_cons, ih]

/-- The names in a chain are those in its parts, also when there is only one. -/
theorem mentions_ofChain {join : List Expression → Expression}
    (hjoin : ∀ es, mentions (join es) = mentionsOf es) (es : List Expression) :
    mentions (ofChain join es) = es.flatMap mentions := by
  unfold ofChain
  split
  · simp
  · rw [hjoin, mentionsOf_eq_flatMap]

/-- A chain names what its parts name. -/
theorem references_chain {sep : Terminal} {join : List Expression → Expression}
    (hpoint : sep.isPoint = false) (hsep : ∀ us, references (sep :: us) = references us)
    (hjoin : ∀ es, mentions (join es) = mentionsOf es)
    {parts : List (List Terminal × Expression)}
    (hparts : ∀ p ∈ parts, references p.1 = p.2.mentions) :
    references ([sep].intercalate (parts.map (·.1))) =
      mentions (ofChain join (parts.map (·.2))) := by
  rw [references_intercalate hpoint hsep, mentions_ofChain hjoin, List.flatMap_map,
    List.flatMap_map]
  exact List.flatMap_congr hparts

/-- **The names in the tree are those in the terminals**, in their order. The induction is on the
derivation, symbol by symbol; literals and marks name nothing. -/
theorem references_of_derives {depth : Nat} {symbol : Symbol} {us : List Terminal}
    {e : Expression} (h : Derives depth symbol us e) : references us = e.mentions := by
  induction h with
  | disjunction parts hne hparts ih =>
    exact references_chain rfl (fun _ => by rw [references]; simp) (fun _ => by rw [mentions]) ih
  | conjunction parts hne hparts ih =>
    exact references_chain rfl (fun _ => by rw [references]; simp) (fun _ => by rw [mentions]) ih
  | negated h ih => simpa [references, mentions] using ih
  | positive h ih => exact ih
  | compared op hl hr ihl ihr =>
    rw [references_append _ rfl, mentions, ihl]
    simpa [references] using ihr
  | within hl hvs ih =>
    rw [references_append _ rfl, mentions, ih]
    simpa [references] using references_of_isList hvs
  | notWithin hl hvs ih =>
    rw [references_append _ rfl, mentions, ih]
    simpa [references] using references_of_isList hvs
  | alone h ih => exact ih
  | literal v => simp [references, mentions]
  | name text => simp [references, mentions]
  -- The one `doc` that names no field.
  | docName text => simp [references, mentions, Terminal.isPoint]
  | group h ih =>
    rw [references_append _ rfl]
    simpa [references] using ih

/-! ## Each name once -/

/-- What is left of a list keeps its order. -/
theorem idxOf_lt_of_filter {α : Type} [BEq α] [LawfulBEq α] {p : α → Bool} {x y : α}
    (hx : p x = true) (hy : p y = true) {zs : List α}
    (h : (zs.filter p).idxOf x < (zs.filter p).idxOf y) : zs.idxOf x < zs.idxOf y := by
  induction zs with
  | nil => exact absurd h (by simp)
  | cons z zs ih =>
    by_cases hz : p z = true
    · rw [List.filter_cons_of_pos hz] at h
      rcases eq_or_ne z y with rfl | hzy
      · rw [List.idxOf_cons_self] at h
        exact absurd h (Nat.not_lt_zero _)
      · rcases eq_or_ne z x with rfl | hzx
        · rw [List.idxOf_cons_self, List.idxOf_cons_ne _ hzy]
          exact Nat.succ_pos _
        · rw [List.idxOf_cons_ne _ hzx, List.idxOf_cons_ne _ hzy] at h ⊢
          exact Nat.succ_lt_succ (ih (Nat.lt_of_succ_lt_succ h))
    -- What is dropped is neither of the two.
    · have hzx : z ≠ x := by
        rintro rfl
        exact hz hx
      have hzy : z ≠ y := by
        rintro rfl
        exact hz hy
      rw [List.filter_cons_of_neg hz] at h
      rw [List.idxOf_cons_ne _ hzx, List.idxOf_cons_ne _ hzy]
      exact Nat.succ_lt_succ (ih h)

/-- **Repeated items are erased behind the first of them**, so what is left is in the order of first
occurrence. Of two names that are left, the one that is named first in the text comes first. -/
theorem pairwise_eraseDups {α : Type} [BEq α] [LawfulBEq α] (xs : List α) :
    xs.eraseDups.Pairwise fun x y => xs.idxOf x < xs.idxOf y := by
  -- What is left behind the first item is shorter, but it is no end of the list.
  induction h : xs.length using Nat.strongRecOn generalizing xs with
  | _ n ih =>
    cases xs with
    | nil => simp
    | cons x xs =>
      have hlength : (xs.filter fun y => !y == x).length < n := by
        rw [← h, List.length_cons]
        exact Nat.lt_succ_of_le (List.length_filter_le _ _)
      have hlater := ih _ hlength _ rfl
      have hne : ∀ y ∈ (xs.filter fun y => !y == x).eraseDups, (!y == x) = true := fun y hy =>
        (List.mem_filter.1 (List.mem_eraseDups.1 hy)).2
      have hcons : ∀ y, (!y == x) = true → (x :: xs).idxOf y = xs.idxOf y + 1 := fun y hy =>
        List.idxOf_cons_ne _ (by simpa using fun hxy : x = y => by simp [hxy] at hy)
      rw [List.eraseDups_cons, List.pairwise_cons]
      refine ⟨fun y hy => ?_, hlater.imp_of_mem fun {y z} hy hz hyz => ?_⟩
      · rw [hcons y (hne y hy), List.idxOf_cons_self]
        exact Nat.succ_pos _
      · rw [hcons y (hne y hy), hcons z (hne z hz)]
        exact Nat.succ_lt_succ
          (idxOf_lt_of_filter (p := fun y => !y == x) (hne y hy) (hne z hz) hyz)

/-! ## What documents are judged by -/

mutual

/-- An operand has the same value where its fields have. -/
theorem operand_congr {doc doc' : Entries} :
    ∀ (e : Expression), (∀ name ∈ e.mentions, doc.get? name = doc'.get? name) →
      operand doc e = operand doc' e
  | .field name, h => by
    rw [operand, operand]
    exact h name (by rw [mentions]; exact List.mem_singleton_self name)
  | .literal v, _ => by rw [operand, operand]
  | .compare op l r, h => by
    rw [mentions] at h
    have hl := operand_congr l fun name hn => h name (List.mem_append_left _ hn)
    have hr := operand_congr r fun name hn => h name (List.mem_append_right _ hn)
    -- The operands mention some of the names, so that both documents agree on theirs.
    rw [operand, operand, hl, hr]
  | .member negated l items, h => by
    rw [mentions] at h
    rw [operand, operand, operand_congr l h]
  | .all parts, h => by
    rw [mentions] at h
    rw [operand, operand, (holdsParts_congr parts h).1]
  | .any parts, h => by
    rw [mentions] at h
    rw [operand, operand, (holdsParts_congr parts h).2]
  | .not part, h => by
    rw [mentions] at h
    rw [operand, operand, operand_congr part h]

/-- The parts of a chain hold alike. -/
theorem holdsParts_congr {doc doc' : Entries} :
    ∀ (es : List Expression), (∀ name ∈ mentionsOf es, doc.get? name = doc'.get? name) →
      holdsAll doc es = holdsAll doc' es ∧ holdsSome doc es = holdsSome doc' es
  | [], _ => by rw [holdsAll, holdsAll, holdsSome, holdsSome]; exact ⟨rfl, rfl⟩
  | e :: es, h => by
    rw [mentionsOf] at h
    have he := operand_congr e fun name hn => h name (List.mem_append_left _ hn)
    have hes := holdsParts_congr es fun name hn => h name (List.mem_append_right _ hn)
    rw [holdsAll, holdsAll, holdsSome, holdsSome, he, hes.1, hes.2]
    exact ⟨rfl, rfl⟩

end

/-- **An expression reads no other fields**: documents that agree on its fields are judged alike.
The induction follows the tree, with one case for each form of an expression. -/
theorem holds_congr {e : Expression} {doc doc' : Entries}
    (h : ∀ name ∈ e.fieldNames, doc.get? name = doc'.get? name) : e.holds doc = e.holds doc' := by
  rw [holds, holds, operand_congr e fun name hn => h name (List.mem_eraseDups.2 hn)]

/-! ## From the text -/

/-- **The fields of an expression are those that its text names**, each once and in the order of
first occurrence, and the expression judges documents by nothing but these fields. -/
theorem fieldNames_of_parseText {s : String} {e : Expression} (h : parseText s = .ok e) :
    ∃ ts, tokens (normalize s.toList) = .ok ts ∧
      e.fieldNames.Nodup ∧
      (∀ name, name ∈ e.fieldNames ↔ name ∈ references (terminals ts)) ∧
      e.fieldNames.Pairwise (fun m n =>
        (references (terminals ts)).idxOf m < (references (terminals ts)).idxOf n) ∧
      ∀ doc doc' : Entries, (∀ name ∈ e.fieldNames, doc.get? name = doc'.get? name) →
        e.holds doc = e.holds doc' := by
  obtain ⟨-, -, ts, htokens, hread⟩ := parseText_eq_ok.1 h
  have hreferences : references (terminals ts) = e.mentions :=
    references_of_derives (ofTokens_eq_ok.1 hread)
  refine ⟨ts, htokens, nodup_eraseDups _, fun name => ?_, ?_, fun doc doc' => holds_congr⟩
  · rw [hreferences, fieldNames, List.mem_eraseDups]
  · rw [hreferences]
    exact pairwise_eraseDups _

/-- A field that is named twice, once behind `doc`, and a field that is called `doc` itself. -/
theorem fieldNames_of_parseText_doc :
    ∃ e, parseText "doc.b or doc == b" = .ok e ∧ e.fieldNames = ["b", "doc"] ∧
      (∃ ts, tokens (normalize "doc.b or doc == b".toList) = .ok ts ∧
        references (terminals ts) = ["b", "doc", "b"] ∧
        e.fieldNames.Pairwise (fun m n =>
          (references (terminals ts)).idxOf m < (references (terminals ts)).idxOf n)) ∧
      ∀ doc doc' : Entries, (∀ name ∈ e.fieldNames, doc.get? name = doc'.get? name) →
        e.holds doc = e.holds doc' := by
  have hnormal : normalize "doc.b or doc == b".toList = "doc.b or doc == b".toList :=
    normalize_eq_self ⟨by decide, by decide⟩ (by decide)
  have hlexes : Lexes "doc.b or doc == b".toList [.name "doc", .mark .point, .name "b", .disj,
      .name "doc", .comparator .eq, .name "b"] :=
    .token (l := .name "doc") (by decide) rfl (by decide) <|
    .token (l := .mark .point) (by decide) rfl (by decide) <|
    .token (l := .name "b") (by decide) rfl (by decide) <| .space <|
    .token (l := .disj "or") (by decide) rfl (by decide) <| .space <|
    .token (l := .name "doc") (by decide) rfl (by decide) <| .space <|
    .token (l := .comparator .eq "==") (by decide) rfl (by decide) <| .space <|
    .token (l := .name "b") (by decide) rfl (by decide) .nil
  have hread : ofTokens [⟨.name "doc", 0⟩, ⟨.mark .point, 3⟩, ⟨.name "b", 4⟩, ⟨.disj "or", 6⟩,
      ⟨.name "doc", 9⟩, ⟨.comparator .eq "==", 13⟩, ⟨.name "b", 16⟩] =
      .ok (.any [.field "b", .compare .eq (.field "doc") (.field "b")]) := by cbv
  have hparse : parseText "doc.b or doc == b" =
      .ok (.any [.field "b", .compare .eq (.field "doc") (.field "b")]) := by
    rw [parseText_eq_ok_iff_derives, hnormal]
    exact ⟨by decide, by decide, _, hlexes, ofTokens_eq_ok.1 hread⟩
  obtain ⟨ts, hts, -, -, horder, hcongr⟩ := fieldNames_of_parseText hparse
  obtain ⟨ts', hts', hterminals⟩ := hlexes.exists_scanTokens 0
  have hsame : ts = ts' :=
    Except.ok.inj ((hnormal ▸ hts).symm.trans (tokens_eq_ok.2 hts'))
  refine ⟨_, hparse, by decide +kernel, ⟨ts, hts, ?_, horder⟩, hcongr⟩
  rw [hsame, hterminals]
  rfl

end FormScaffold.Expression
