import FormScaffold.Expression.Evaluation
import FormScaffold.Proofs.Expression.Lexing

/-! # Expressions put together

Two texts with `or` between them, both of them in brackets with `and` between them, and one of them
in brackets behind `not` mean what the words say.

* **`Shallower`** — one reader does as another one, unless it finds the nesting too deep;
* `derives_either`, `derives_both`, `derives_negated` — the grammar of the texts put together;
* **`parseText_connectives`** — reading a text put together, and judging what was read. -/

namespace FormScaffold.Expression

open Text

/-! ## Less depth -/

/-- The nesting was found too deep. -/
def IsTooDeep {α : Type} (x : Except Refusal α) : Prop := ∃ r, x = .error r ∧ r.cause = .tooDeep

/-- The result is the other one, unless the nesting was found too deep. -/
def Cuts {α : Type} (x x' : Except Refusal α) : Prop := x = x' ∨ IsTooDeep x

/-- A result is cut off nowhere from itself. -/
theorem Cuts.refl {α : Type} (x : Except Refusal α) : Cuts x x := .inl rfl

/-- What is cut off from a result that is cut off is cut off from the whole. -/
theorem Cuts.trans {α : Type} {x y z : Except Refusal α} (h : Cuts x y) (h' : Cuts y z) :
    Cuts x z := by
  rcases h with rfl | h
  · exact h'
  · exact .inr h

/-- Two steps are cut off when one of them is. -/
theorem Cuts.bind {α β : Type} {x x' : Except Refusal α} {f f' : α → Except Refusal β}
    (hx : Cuts x x') (hf : ∀ a, Cuts (f a) (f' a)) : Cuts (x >>= f) (x' >>= f') := by
  rcases hx with rfl | ⟨r, rfl, hcause⟩
  · cases x with
    | error r => exact .refl _
    | ok a => exact hf a
  · exact .inr ⟨r, rfl, hcause⟩

/-- **The reader does as the other one**, unless it finds the nesting too deep. -/
def Shallower {α : Type} (read read' : Reader α) : Prop := ∀ ts, Cuts (read ts) (read' ts)

/-- A reader that finds everything too deep does as any reader. -/
theorem shallower_tooDeep (read : Reader Expression) : Shallower tooDeep read :=
  fun ts => .inr ⟨⟨.tooDeep, ts⟩, rfl, rfl⟩

section Inside

variable {inner inner' : Reader Expression} (h : Shallower inner inner')
include h

/-- Operands are cut off only where the insides of groups are. -/
theorem shallower_operand : Shallower (readOperand inner) (readOperand inner') := by
  intro ts
  unfold readOperand
  split
  · exact .refl _
  · exact .refl _
  · exact (h _).bind fun _ => .refl _
  · exact .refl _
  · exact .refl _

/-- Comparisons are cut off only where their operands are. -/
theorem shallower_comparison : Shallower (readComparison inner) (readComparison inner') := by
  intro ts
  refine (shallower_operand h ts).bind fun left => ?_
  obtain ⟨l, rest, hrest⟩ := left
  simp only
  split
  · exact (shallower_operand h _).bind fun _ => .refl _
  · exact .refl _
  · exact .refl _
  · exact .refl _

/-- Chains are cut off only where their parts are. -/
theorem shallower_chain (joins : Lexeme → Bool) :
    Shallower (readChain joins inner) (readChain joins inner') := by
  intro ts
  induction ts using readChain.induct with
  | case1 ts ih =>
    rw [readChain, readChain]
    refine (h ts).bind fun first => ?_
    obtain ⟨e, rest, hrest⟩ := first
    simp only
    split
    · rename_i t after hafter
      -- Behind what joins the parts, the rest of the chain is shorter.
      split
      · exact (ih t after hafter).bind fun _ => .refl _
      · exact .refl _
    · exact .refl _

/-- Disjunctions are cut off only where their negations are. -/
theorem shallower_disjunction : Shallower (readDisjunction inner) (readDisjunction inner') := by
  have hconjunction : Shallower (readConjunction inner) (readConjunction inner') :=
    fun ts => (shallower_chain h Lexeme.isConj ts).bind fun _ => .refl _
  exact fun ts => (shallower_chain hconjunction Lexeme.isDisj ts).bind fun _ => .refl _

end Inside

/-- **One level less** cuts off what needs it. The induction is on the levels: a negation takes one,
and a group goes back to the start with one less. -/
theorem shallower_succ (depth : Nat) :
    Shallower (readNegation depth) (readNegation (depth + 1)) := by
  induction depth with
  | zero =>
    intro ts
    by_cases hneg : ∃ s i rest, ts = ⟨.neg s, i⟩ :: rest
    · obtain ⟨s, i, rest, rfl⟩ := hneg
      -- A negation has no level left.
      exact .inr ⟨⟨.tooDeep, rest⟩, rfl, rfl⟩
    · rw [readNegation_eq 0 fun s i rest hts => hneg ⟨s, i, rest, hts⟩,
        readNegation_eq 1 fun s i rest hts => hneg ⟨s, i, rest, hts⟩]
      exact shallower_comparison (shallower_tooDeep _) ts
  | succ depth ih =>
    intro ts
    by_cases hneg : ∃ s i rest, ts = ⟨.neg s, i⟩ :: rest
    · obtain ⟨s, i, rest, rfl⟩ := hneg
      exact (ih rest).bind fun _ => .refl _
    · rw [readNegation_eq (depth + 1) fun s i rest hts => hneg ⟨s, i, rest, hts⟩,
        readNegation_eq (depth + 2) fun s i rest hts => hneg ⟨s, i, rest, hts⟩]
      exact shallower_comparison (shallower_disjunction ih) ts

/-- **More levels change nothing but what was too deep.** A text that is read with few levels is
read with more as the same expression. -/
theorem shallower_add (depth more : Nat) :
    Shallower (readNegation depth) (readNegation (depth + more)) := by
  induction more with
  | zero => exact fun ts => .refl _
  | succ more ih => exact fun ts => (ih ts).trans (shallower_succ (depth + more) ts)

/-- **Tokens that make up an expression with more depth** make it up, or are nested too deep. This
is what putting texts together can do: brackets add depth, and nothing else can go wrong. -/
theorem ofTokens_of_derives_add {more : Nat} {ts : List Token} {e : Expression}
    (h : Derives (maxDepth + more) .disjunction (terminals ts) e) :
    ofTokens ts = .ok e ∨ IsTooDeep (ofTokens ts) := by
  have hread : ∃ hleft, readDisjunction (readNegation (maxDepth + more)) (ts ++ []) =
      .ok (e, ⟨[], hleft⟩) :=
    -- With the depth that it takes, all of the tokens are read.
    (reads_disjunction (reads_negation _)).complete h (by rintro t ⟨⟩)
  rw [List.append_nil] at hread
  obtain ⟨hleft, hread⟩ := hread
  rcases shallower_disjunction (shallower_add maxDepth more) ts with hsame | ⟨r, hr, hcause⟩
  · exact .inl (bind_eq_ok.2 ⟨_, hsame.trans hread, rfl⟩)
  · exact .inr ⟨r, bind_eq_error.2 (.inl hr), hcause⟩

/-! ## The grammar of the parts together -/

/-- Pieces with a separator between them, cut between two pieces. -/
theorem intercalate_append_of_ne_nil {α : Type} (sep : List α) {xs ys : List (List α)}
    (hxs : xs ≠ []) (hys : ys ≠ []) :
    sep.intercalate (xs ++ ys) = sep.intercalate xs ++ sep ++ sep.intercalate ys := by
  induction xs with
  | nil => exact absurd rfl hxs
  | cons x xs ih =>
    cases xs with
    | nil =>
      obtain ⟨y, ys, rfl⟩ := List.exists_cons_of_ne_nil hys
      simp [List.intercalate_cons_cons]
    | cons x' xs =>
      rw [List.cons_append, List.cons_append, List.intercalate_cons_cons,
        List.intercalate_cons_cons, ← List.cons_append, ih (List.cons_ne_nil _ _)]
      simp only [List.append_assoc]

/-- A disjunction holds when some part of it does. -/
theorem holdsSome_eq_any (doc : Entries) (es : List Expression) :
    holdsSome doc es = es.any (·.holds doc) := by
  induction es with
  | nil => rw [holdsSome, List.any_nil]
  | cons e es ih => rw [holdsSome, List.any_cons, ih, holds]

/-- A chain of some parts holds when one of them does, also when there is only one. -/
theorem holds_ofChain_any {es : List Expression} (hne : es ≠ []) (doc : Entries) :
    (ofChain .any es).holds doc = es.any (·.holds doc) := by
  unfold ofChain
  split
  · simp
  · simp [holds, operand, Value.truthy, holdsSome_eq_any]

/-- A conjunction of two holds when both do. -/
theorem holds_all_pair (e₁ e₂ : Expression) (doc : Entries) :
    (all [e₁, e₂]).holds doc = (e₁.holds doc && e₂.holds doc) := by
  simp [holds, operand, holdsAll, Value.truthy]

section Parts

variable {depth : Nat} {us vs : List Terminal} {e₁ e₂ : Expression}

/-- **Two chains with `or` between them** are one chain. No brackets are needed, since a disjunction
binds least. -/
theorem derives_either (h₁ : Derives depth .disjunction us e₁)
    (h₂ : Derives depth .disjunction vs e₂) :
    ∃ e, Derives depth .disjunction (us ++ .disj :: vs) e ∧
      ∀ doc, e.holds doc = (e₁.holds doc || e₂.holds doc) := by
  obtain ⟨_, ⟨parts, hne, hparts, rfl, rfl⟩, rfl⟩ := derives_disjunction_iff.1 h₁
  obtain ⟨_, ⟨parts', hne', hparts', rfl, rfl⟩, rfl⟩ := derives_disjunction_iff.1 h₂
  have hmap : ∀ {ps : List (List Terminal × Expression)} {β : Type}
      {f : List Terminal × Expression → β}, ps ≠ [] → ps.map f ≠ [] := by
    intro ps β f hps
    rwa [Ne, List.map_eq_nil_iff]
  -- The parts of both chains, one after the other, are the parts of the chain.
  have happend : parts ++ parts' ≠ [] := List.append_ne_nil_of_left_ne_nil hne _
  have hderives : Derives depth .disjunction
      ([Terminal.disj].intercalate ((parts ++ parts').map (·.1)))
      (ofChain .any ((parts ++ parts').map (·.2))) :=
    .disjunction _ happend fun p hp => (List.mem_append.1 hp).elim (hparts p) (hparts' p)
  rw [List.map_append, intercalate_append_of_ne_nil _ (hmap hne) (hmap hne'),
    List.append_assoc, List.singleton_append] at hderives
  refine ⟨_, hderives, fun doc => ?_⟩
  rw [holds_ofChain_any (hmap happend), holds_ofChain_any (hmap hne),
    holds_ofChain_any (hmap hne'), List.map_append, List.any_append]

/-- What stands in brackets counts as one operand, and as every symbol that may be one. -/
theorem derives_group (h : Derives depth .disjunction us e₁) :
    Derives (depth + 1) .negation (.mark .openGroup :: us ++ [.mark .closeGroup]) e₁ :=
  .positive (.alone (.group h))

/-- **Two chains in brackets with `and` between them.** The brackets keep the parts of the two apart
from the `and` between them. -/
theorem derives_both (h₁ : Derives depth .disjunction us e₁)
    (h₂ : Derives depth .disjunction vs e₂) :
    Derives (depth + 1) .disjunction
      ((.mark .openGroup :: us ++ [.mark .closeGroup]) ++
        .conj :: (.mark .openGroup :: vs ++ [.mark .closeGroup])) (.all [e₁, e₂]) := by
  have hconjunction := derives_conjunction_iff.2
    ⟨_, .joined (derives_group h₁) (.part (derives_group h₂)), rfl⟩
  exact derives_disjunction_iff.2 ⟨_, .part hconjunction, rfl⟩

/-- **A chain in brackets behind `not`.** The brackets make one operand of the chain, which the
`not` denies as a whole. -/
theorem derives_negated (h : Derives depth .disjunction us e₁) :
    Derives (depth + 2) .disjunction
      (.neg :: (.mark .openGroup :: us ++ [.mark .closeGroup])) (.not e₁) := by
  have hconjunction := derives_conjunction_iff.2
    ⟨_, .part (.negated (derives_group h)), rfl⟩
  exact derives_disjunction_iff.2 ⟨_, .part hconjunction, rfl⟩

end Parts

/-! ## The texts of the parts together -/

/-- Two texts with `or` between them. -/
def eitherText (cs ds : List Char) : List Char := cs ++ " or ".toList ++ ds

/-- Two texts in brackets with `and` between them. -/
def bothText (cs ds : List Char) : List Char :=
  "(".toList ++ cs ++ ") and (".toList ++ ds ++ ")".toList

/-- A text in brackets behind `not`. -/
def negatedText (cs : List Char) : List Char := "not (".toList ++ cs ++ ")".toList

section Texts

variable {cs ds : List Char} {us vs : List Terminal}

/-- The lexemes of two texts with `or` between them. -/
theorem lexes_either (hcs : Lexes cs us) (hds : Lexes ds vs) :
    Lexes (eitherText cs ds) (us ++ .disj :: vs) := by
  have htext : eitherText cs ds = cs ++ ' ' :: (['o', 'r'] ++ ' ' :: ds) := by
    simp [eitherText]
  rw [htext]
  exact hcs.append (by decide) (lexes_or.append (by decide) hds.space).space

/-- The lexemes of a text in brackets, and of what follows it. -/
theorem Lexes.group (h : Lexes cs us) {rest : List Char} (hrest : Lexes rest vs) :
    Lexes ('(' :: (cs ++ ')' :: rest)) (.mark .openGroup :: (us ++ .mark .closeGroup :: vs)) :=
  (h.append (by decide) hrest.closeGroup).openGroup

/-- The lexemes of two texts in brackets with `and` between them. -/
theorem lexes_both (hcs : Lexes cs us) (hds : Lexes ds vs) :
    Lexes (bothText cs ds) ((.mark .openGroup :: us ++ [.mark .closeGroup]) ++
      .conj :: (.mark .openGroup :: vs ++ [.mark .closeGroup])) := by
  have htext : bothText cs ds =
      '(' :: (cs ++ ')' :: ' ' :: (['a', 'n', 'd'] ++ ' ' :: '(' :: (ds ++ [')']))) := by
    simp only [bothText, List.append_assoc]
    rfl
  have hand := (lexes_and.append (by decide) (hds.group .nil).space).space
  rw [htext]
  simpa using hcs.group hand

/-- The lexemes of a text in brackets behind `not`. -/
theorem lexes_negated (h : Lexes cs us) :
    Lexes (negatedText cs) (.neg :: (.mark .openGroup :: us ++ [.mark .closeGroup])) := by
  have htext : negatedText cs = ['n', 'o', 't'] ++ ' ' :: '(' :: (cs ++ [')']) := by
    simp only [negatedText, List.append_assoc]
    rfl
  rw [htext]
  exact lexes_not.append (by decide) (h.group .nil).space

/-- A text is trimmed when its ends are. -/
theorem isTrimmed_append (hcs : IsTrimmed cs) (hds : IsTrimmed ds) (hne : cs ≠ []) (hne' : ds ≠ [])
    (middle : List Char) : IsTrimmed (cs ++ middle ++ ds) where
  head := by
    rw [List.append_assoc, List.head?_append_of_ne_nil cs hne]
    exact hcs.head
  last := by
    rw [List.getLast?_append_of_ne_nil _ hne']
    exact hds.last

end Texts

/-- **What becomes of a text**: what is read holds of the documents that `meaning` says, and the
text is refused for its length or for its depth only. -/
structure HoldsAs (cs : List Char) (meaning : Entries → Bool) : Prop where
  holds {e : Expression} (h : parseText (String.ofList cs) = .ok e) (doc : Entries) :
    e.holds doc = meaning doc
  refused {err : ParseError} (h : parseText (String.ofList cs) = .error err) :
    maxLength < Text.size cs ∧ err.cause = .tooLong ∨
      Text.size cs ≤ maxLength ∧ err.cause = .tooDeep

section Whole

variable {cs : List Char} {us : List Terminal} {e : Expression} (htrimmed : IsTrimmed cs)
  (hne : cs ≠ []) (hlexes : Lexes cs us)
include htrimmed hne hlexes

/-- A text put together is read when its tokens make up an expression within the depth. -/
theorem parseText_of_derives (hderives : Derives maxDepth .disjunction us e)
    (hlength : Text.size cs ≤ maxLength) : parseText (String.ofList cs) = .ok e := by
  have hnormal : normalize cs = cs := normalize_eq_self htrimmed (eval_notPrefix_of_lexes hlexes)
  rw [parseText_eq_ok_iff_derives, String.toList_ofList, hnormal]
  exact ⟨hne, hlength, us, hlexes, hderives⟩

/-- With more depth than there is, it may still be refused. -/
theorem holdsAs_of_derives {more : Nat} (hderives : Derives (maxDepth + more) .disjunction us e)
    {meaning : Entries → Bool} (hmeaning : ∀ doc, e.holds doc = meaning doc) :
    HoldsAs cs meaning := by
  have hnormal : normalize cs = cs := normalize_eq_self htrimmed (eval_notPrefix_of_lexes hlexes)
  by_cases hlength : Text.size cs ≤ maxLength
  · obtain ⟨ts, rfl, hparse⟩ := parseText_of_lexes hnormal hne hlexes hlength
    -- Its tokens are an expression, so nothing but the depth stands in the way.
    rcases ofTokens_of_derives_add hderives with hok | ⟨r, hr, hcause⟩
    · rw [hok] at hparse
      refine ⟨fun h => ?_, fun h => absurd (hparse.symm.trans h) (by simp [Except.mapError])⟩
      rw [← Except.ok.inj (hparse.symm.trans h)]
      exact hmeaning
    · rw [hr] at hparse
      refine ⟨fun h => absurd (hparse.symm.trans h) (by simp [Except.mapError]), fun h => ?_⟩
      rw [← Except.error.inj (hparse.symm.trans h)]
      exact .inr ⟨hlength, hcause⟩
  · obtain ⟨err, herr, hcause⟩ := parseText_of_long hnormal (Nat.lt_of_not_le hlength)
    refine ⟨fun h => absurd (herr.symm.trans h) (by simp), fun h => ?_⟩
    rw [← Except.error.inj (herr.symm.trans h)]
    exact .inl ⟨Nat.lt_of_not_le hlength, hcause⟩

end Whole

/-- **The connectives of texts are those of their meanings.** Of two texts that are read, the text
with `or` between them is read when it is not too long, and holds where one of the two holds; no
brackets are needed. In brackets with `and` between them they hold where both do, and behind `not`
the first one holds where it did not, unless the text put together is too long or too deep. -/
theorem parseText_connectives {s₁ s₂ : String} {e₁ e₂ : Expression}
    (h₁ : parseText s₁ = .ok e₁) (h₂ : parseText s₂ = .ok e₂) :
    (Text.size (eitherText (normalize s₁.toList) (normalize s₂.toList)) ≤ maxLength →
      ∃ e, parseText (String.ofList (eitherText (normalize s₁.toList) (normalize s₂.toList))) =
          .ok e ∧
        ∀ doc, e.holds doc = (e₁.holds doc || e₂.holds doc)) ∧
    HoldsAs (bothText (normalize s₁.toList) (normalize s₂.toList))
      (fun doc => e₁.holds doc && e₂.holds doc) ∧
    HoldsAs (negatedText (normalize s₁.toList)) (fun doc => !e₁.holds doc) := by
  obtain ⟨hne₁, -, us, hlexes₁, hderives₁⟩ := parseText_eq_ok_iff_derives.1 h₁
  obtain ⟨hne₂, -, vs, hlexes₂, hderives₂⟩ := parseText_eq_ok_iff_derives.1 h₂
  have hbracket : IsTrimmed ")".toList := ⟨by decide, by decide⟩
  -- Each text put together is trimmed as it stands, so that it is read from the same tokens.
  refine ⟨fun hlength => ?_, ?_, ?_⟩
  · obtain ⟨e, hderives, hholds⟩ := derives_either hderives₁ hderives₂
    have htrimmed : IsTrimmed (eitherText (normalize s₁.toList) (normalize s₂.toList)) :=
      isTrimmed_append (isTrimmed_normalize _) (isTrimmed_normalize _) hne₁ hne₂ _
    have hne : eitherText (normalize s₁.toList) (normalize s₂.toList) ≠ [] := by
      simp [eitherText]
    exact ⟨e, parseText_of_derives htrimmed hne (lexes_either hlexes₁ hlexes₂) hderives hlength,
      hholds⟩
  · have htrimmed : IsTrimmed (bothText (normalize s₁.toList) (normalize s₂.toList)) := by
      rw [bothText, List.append_assoc "(".toList, List.append_assoc "(".toList]
      exact isTrimmed_append ⟨by decide, by decide⟩ hbracket (by decide) (by decide) _
    exact holdsAs_of_derives htrimmed (by simp [bothText]) (lexes_both hlexes₁ hlexes₂)
      (derives_both hderives₁ hderives₂) (holds_all_pair e₁ e₂)
  · have htrimmed : IsTrimmed (negatedText (normalize s₁.toList)) :=
      isTrimmed_append ⟨by decide, by decide⟩ hbracket (by decide) (by decide) _
    exact holdsAs_of_derives htrimmed (by simp [negatedText]) (lexes_negated hlexes₁)
      (derives_negated hderives₁) (holds_not e₁)

/-- A field behind a label, and a field that is looked up in a list. -/
theorem parseText_connectives_label :
    parseText "eval: a" = .ok (.field "a") ∧
      parseText "c in [1]" = .ok (.member false (.field "c") [.int 1]) ∧
      ∃ e, parseText "a or c in [1]" = .ok e ∧ ∀ doc, e.holds doc =
        ((field "a").holds doc || (member false (.field "c") [.int 1]).holds doc) := by
  have hnormal₁ : normalize "eval: a".toList = "a".toList := by decide +kernel
  have hnormal₂ : normalize "c in [1]".toList = "c in [1]".toList :=
    normalize_eq_self ⟨by decide, by decide⟩ (by decide)
  have h₁ : parseText "eval: a" = .ok (.field "a") := by
    have hlexes : Lexes "a".toList [.name "a"] :=
      .token (l := .name "a") (by decide) rfl (by decide) .nil
    have hread : ofTokens [⟨.name "a", 0⟩] = .ok (.field "a") := by cbv
    rw [parseText_eq_ok_iff_derives, hnormal₁]
    exact ⟨by decide, by decide, _, hlexes, ofTokens_eq_ok.1 hread⟩
  have h₂ : parseText "c in [1]" = .ok (.member false (.field "c") [.int 1]) := by
    have hlexes : Lexes "c in [1]".toList
        [.name "c", .within, .mark .openList, .literal (.int 1), .mark .closeList] :=
      .token (l := .name "c") (by decide) rfl (by decide) <| .space <|
      .token (l := .within) (by decide) rfl (by decide) <| .space <|
      .token (l := .mark .openList) (by decide) rfl (by decide) <|
      .token (l := .literal (.int 1)) (by decide) rfl (by decide) <|
      .token (l := .mark .closeList) (by decide) rfl (by decide) .nil
    have hread : ofTokens [⟨.name "c", 0⟩, ⟨.within, 2⟩, ⟨.mark .openList, 5⟩,
        ⟨.literal (.int 1), 6⟩, ⟨.mark .closeList, 7⟩] =
        .ok (.member false (.field "c") [.int 1]) := by cbv
    rw [parseText_eq_ok_iff_derives, hnormal₂]
    exact ⟨by decide, by decide, _, hlexes, ofTokens_eq_ok.1 hread⟩
  have heither := (parseText_connectives h₁ h₂).1
  have htext : String.ofList (eitherText "a".toList "c in [1]".toList) = "a or c in [1]" := by
    decide
  rw [hnormal₁, hnormal₂, htext] at heither
  exact ⟨h₁, h₂, heither (by decide)⟩

end FormScaffold.Expression
