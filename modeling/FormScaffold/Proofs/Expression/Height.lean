import FormScaffold.Proofs.Expression.Joining
import FormScaffold.Proofs.Expression.Literals
import FormScaffold.Proofs.Expression.References

/-! # The height of expressions

Groups and negations are nested to a fixed depth, and one level of nesting adds at most three levels
to the tree: a comparison, a conjunction and a disjunction. However long a text is, what is computed
over its tree by calls for the parts nests no more calls than a constant.

* **`height_le_of_derives`** — the height of what a symbol of the grammar derives;
* **`Traversal`** — what is made of an expression from what was made of its parts, with
  `Traversal.within levels` for at most so many nested calls;
* **`Traversal.Computes.within_eq`** — the calls are nested as deep as the tree is high;
* **`height_le_of_parseText`** — an expression that a text writes is low, so that its form as data,
  its fields and what it says of a document are found by few nested calls. -/

namespace FormScaffold.Expression

open Text

/-! ## Heights -/

/-- Expressions are as high as the highest of them. -/
theorem heightOf_le_iff {es : List Expression} {n : Nat} :
    heightOf es ≤ n ↔ ∀ e ∈ es, e.height ≤ n := by
  induction es with
  | nil => simp [heightOf]
  | cons e es ih => rw [heightOf, Nat.max_le, ih, List.forall_mem_cons]

/-- A chain of one part is as high as the part, and another chain is one level higher. -/
theorem height_ofChain_le {join : List Expression → Expression}
    (hjoin : ∀ es, (join es).height = heightOf es + 1) {es : List Expression} {n : Nat}
    (h : ∀ e ∈ es, e.height ≤ n) : (ofChain join es).height ≤ n + 1 := by
  unfold ofChain
  split
  · exact Nat.le_succ_of_le (h _ List.mem_cons_self)
  · rw [hjoin]
    exact Nat.succ_le_succ (heightOf_le_iff.2 h)

/-- The levels that a symbol adds where nothing is nested. -/
def Symbol.levels : Symbol → Nat
  | .operand => 1
  | .comparison => 2
  | .negation => 2
  | .conjunction => 3
  | .disjunction => 4

/-- **The height of what a symbol derives.** A group takes one from the depth and starts again with
a disjunction, which is three levels higher than an operand; a negation takes one from the depth and
adds one level. The bound is by induction on the derivation, and the depth that the readers allow
makes it a number. -/
theorem height_le_of_derives {depth : Nat} {symbol : Symbol} {ts : List Terminal} {e : Expression}
    (h : Derives depth symbol ts e) : e.height ≤ 3 * depth + symbol.levels := by
  induction h with
  | disjunction parts hne hparts ih =>
    refine height_ofChain_le (fun es => by rw [height]) fun e he => ?_
    obtain ⟨p, hp, rfl⟩ := List.mem_map.1 he
    exact ih p hp
  | conjunction parts hne hparts ih =>
    refine height_ofChain_le (fun es => by rw [height]) fun e he => ?_
    obtain ⟨p, hp, rfl⟩ := List.mem_map.1 he
    exact ih p hp
  | negated h ih =>
    simp only [height, Symbol.levels] at ih ⊢
    omega
  | compared op hl hr ihl ihr =>
    simp only [height, Symbol.levels] at ihl ihr ⊢
    omega
  | within hl hvs ih =>
    simp only [height, Symbol.levels] at ih ⊢
    omega
  | notWithin hl hvs ih =>
    simp only [height, Symbol.levels] at ih ⊢
    omega
  | positive h ih => exact ih
  | alone h ih =>
    simp only [Symbol.levels] at ih ⊢
    omega
  | literal v => simp [height, Symbol.levels]
  | name text => simp [height, Symbol.levels]
  | docName text => simp [height, Symbol.levels]
  -- The depth that a group takes pays for the levels from an operand to a disjunction.
  | group h ih =>
    simp only [Symbol.levels] at ih ⊢
    omega

/-! ## Traversals -/

/-- What is made of an expression, given what was made of its parts. -/
structure Traversal (α : Type) where
  field : String → α
  literal : Value → α
  compare : Comparator → α → α → α
  member : Bool → α → List Value → α
  all : List α → α
  any : List α → α
  not : α → α

namespace Traversal

variable {α : Type}

mutual

/-- What the traversal makes of an expression by a call that nests at most so many calls, itself
included; nothing when they do not suffice. -/
def within (t : Traversal α) : Nat → Expression → Option α
  | 0, _ => none
  | _ + 1, .field name => some (t.field name)
  | _ + 1, .literal v => some (t.literal v)
  | levels + 1, .compare op l r => do
    return t.compare op (← within t levels l) (← within t levels r)
  | levels + 1, .member negated l items => do return t.member negated (← within t levels l) items
  | levels + 1, .all parts => do return t.all (← withinEach t levels parts)
  | levels + 1, .any parts => do return t.any (← withinEach t levels parts)
  | levels + 1, .not part => do return t.not (← within t levels part)

/-- What the traversal makes of several expressions, by one call for each. -/
def withinEach (t : Traversal α) (levels : Nat) : List Expression → Option (List α)
  | [] => some []
  | e :: es => do return (← within t levels e) :: (← withinEach t levels es)

end

/-- The function makes of every expression what the traversal makes of it. -/
structure Computes (t : Traversal α) (f : Expression → α) : Prop where
  field : ∀ name, f (.field name) = t.field name
  literal : ∀ v, f (.literal v) = t.literal v
  compare : ∀ op l r, f (.compare op l r) = t.compare op (f l) (f r)
  member : ∀ negated l items, f (.member negated l items) = t.member negated (f l) items
  all : ∀ parts, f (.all parts) = t.all (parts.map f)
  any : ∀ parts, f (.any parts) = t.any (parts.map f)
  not : ∀ part, f (.not part) = t.not (f part)

mutual

/-- **The calls of a traversal are nested as deep as the tree is high**, no more and no less. The
levels that are given are the nested calls that are allowed; with fewer than the height there is no
result at all. -/
theorem Computes.within_eq {t : Traversal α} {f : Expression → α} (h : t.Computes f)
    (levels : Nat) : ∀ e : Expression,
    t.within levels e = if e.height ≤ levels then some (f e) else none
  | .field name => by cases levels <;> simp [within, height, h.field]
  | .literal v => by cases levels <;> simp [within, height, h.literal]
  | .compare op l r => by
    cases levels with
    | zero => simp [within, height]
    | succ levels =>
      -- Each operand is computed with one level less, or is too high.
      rw [within, h.within_eq levels l, h.within_eq levels r, height, h.compare]
      by_cases hl : l.height ≤ levels <;> by_cases hr : r.height ≤ levels <;> simp [hl, hr]
  | .member negated l items => by
    cases levels with
    | zero => simp [within, height]
    | succ levels =>
      rw [within, h.within_eq levels l, height, h.member]
      by_cases hl : l.height ≤ levels <;> simp [hl]
  | .all parts => by
    cases levels with
    | zero => simp [within, height]
    | succ levels =>
      rw [within, h.withinEach_eq levels parts, height, h.all]
      by_cases hparts : heightOf parts ≤ levels <;> simp [hparts]
  | .any parts => by
    cases levels with
    | zero => simp [within, height]
    | succ levels =>
      rw [within, h.withinEach_eq levels parts, height, h.any]
      by_cases hparts : heightOf parts ≤ levels <;> simp [hparts]
  | .not part => by
    cases levels with
    | zero => simp [within, height]
    | succ levels =>
      rw [within, h.within_eq levels part, height, h.not]
      by_cases hpart : part.height ≤ levels <;> simp [hpart]

/-- Several expressions are traversed one by one, when the levels suffice for each of them. -/
theorem Computes.withinEach_eq {t : Traversal α} {f : Expression → α} (h : t.Computes f)
    (levels : Nat) : ∀ es : List Expression,
    t.withinEach levels es = if heightOf es ≤ levels then some (es.map f) else none
  | [] => by simp [withinEach, heightOf]
  | e :: es => by
    rw [withinEach, h.within_eq levels e, h.withinEach_eq levels es, heightOf]
    by_cases he : e.height ≤ levels <;> by_cases hes : heightOf es ≤ levels <;> simp [he, hes]

end

/-- **As many levels as an expression is high suffice for it.** -/
theorem Computes.within_of_height_le {t : Traversal α} {f : Expression → α} (h : t.Computes f)
    {levels : Nat} {e : Expression} (hle : e.height ≤ levels) :
    t.within levels e = some (f e) := by
  rw [h.within_eq, if_pos hle]

/-! ## What is traversed -/

/-- The form of an expression as data. -/
def data : Traversal Value where
  field name := .record [("field", .text name)]
  literal v := .record [("literal", v)]
  compare op l r := .record [("op", .text op.word), ("left", l), ("right", r)]
  member negated l items :=
    .record [("op", .text (if negated then "not_in" else "in")), ("left", l),
      ("items", .list items)]
  all parts := .record [("op", .text "and"), ("children", .list parts)]
  any parts := .record [("op", .text "or"), ("children", .list parts)]
  not part := .record [("op", .text "not"), ("child", part)]

/-- The names of the fields in an expression. -/
def fields : Traversal (List String) where
  field name := [name]
  literal _ := []
  compare _ l r := l ++ r
  member _ l _ := l
  all parts := parts.flatten
  any parts := parts.flatten
  not part := part

/-- The value of an expression in a document. -/
def judgement (doc : Entries) : Traversal (Option Value) where
  field name := doc.get? name
  literal v := some v
  compare op l r := some (.bool (Comparator.judge op l r))
  member negated l items :=
    let found := items.any fun v => equal l (some v)
    some (.bool (if negated then !found else found))
  all parts := some (.bool (parts.all fun v => v.any Value.truthy))
  any parts := some (.bool (parts.any fun v => v.any Value.truthy))
  not part := some (.bool (!part.any Value.truthy))

/-- The form of an expression as data is made by going over it. -/
theorem computes_toValue : data.Computes toValue where
  field name := by rw [toValue]; rfl
  literal v := by rw [toValue]; rfl
  compare op l r := by rw [toValue]; rfl
  member negated l items := by rw [toValue]; rfl
  all parts := by rw [toValue, toValues_eq_map]; rfl
  any parts := by rw [toValue, toValues_eq_map]; rfl
  not part := by rw [toValue]; rfl

/-- The names of the fields in an expression are gathered by going over it. -/
theorem computes_mentions : fields.Computes mentions where
  field name := by rw [mentions]; rfl
  literal v := by rw [mentions]; rfl
  compare op l r := by rw [mentions]; rfl
  member negated l items := by rw [mentions]; rfl
  all parts := by rw [mentions, mentionsOf_eq_flatMap, List.flatMap_def]; rfl
  any parts := by rw [mentions, mentionsOf_eq_flatMap, List.flatMap_def]; rfl
  not part := by rw [mentions]; rfl

/-- A conjunction holds when all parts of it do. -/
theorem holdsAll_eq_all (doc : Entries) (es : List Expression) :
    holdsAll doc es = es.all (·.holds doc) := by
  induction es with
  | nil => rw [holdsAll, List.all_nil]
  | cons e es ih => rw [holdsAll, List.all_cons, ih, holds]

/-- An expression is judged by going over it. -/
theorem computes_operand (doc : Entries) : (judgement doc).Computes (operand doc) where
  field name := by rw [operand]; rfl
  literal v := by rw [operand]; rfl
  compare op l r := by rw [operand]; rfl
  member negated l items := by rw [operand]; rfl
  all parts := by rw [operand, holdsAll_eq_all]; simp [judgement, Function.comp_def, holds]
  any parts := by rw [operand, holdsSome_eq_any]; simp [judgement, Function.comp_def, holds]
  not part := by rw [operand]; rfl

end Traversal

/-! ## From the text -/

/-- **An expression that a text writes is low**, however long the text is. So its form as data, the
fields that it mentions, and what it says of any document are found by calls that are nested no
deeper than a constant. The bound does not grow with the length of chains, since a chain of any
length is one node. -/
theorem height_le_of_parseText {s : String} {e : Expression} (h : parseText s = .ok e) :
    e.height ≤ 3 * maxDepth + 4 ∧
      Traversal.data.within (3 * maxDepth + 4) e = some e.toValue ∧
      (Traversal.fields.within (3 * maxDepth + 4) e).map List.eraseDups = some e.fieldNames ∧
      ∀ doc, ((Traversal.judgement doc).within (3 * maxDepth + 4) e).map
        (fun v => v.any Value.truthy) = some (e.holds doc) := by
  obtain ⟨-, -, us, -, hderives⟩ := parseText_eq_ok_iff_derives.1 h
  have hheight : e.height ≤ 3 * maxDepth + 4 := height_le_of_derives hderives
  refine ⟨hheight, Traversal.computes_toValue.within_of_height_le hheight, ?_, fun doc => ?_⟩
  · rw [Traversal.computes_mentions.within_of_height_le hheight, Option.map_some, fieldNames]
  · rw [(Traversal.computes_operand doc).within_of_height_le hheight, Option.map_some, holds]

/-! ## A text whose tree is as high as any

Around each group stands a comparison, around that a conjunction and around that a disjunction. -/

/-- What stands behind an operand so that it becomes part of a disjunction. -/
def joined : List Char := " == a and a or a".toList

/-- A field in so many groups. -/
def nestedText : Nat → List Char
  | 0 => ['a']
  | n + 1 => '(' :: (nestedText n ++ joined) ++ [')']

/-- The disjunction around an operand. -/
def join (e : Expression) : Expression :=
  .any [.all [.compare .eq e (.field "a"), .field "a"], .field "a"]

/-- What a field in so many groups is read as. -/
def nestedTree : Nat → Expression
  | 0 => .field "a"
  | n + 1 => join (nestedTree n)

/-- A disjunction around an operand is three levels higher than it. -/
theorem height_join (e : Expression) : (join e).height = max e.height 1 + 3 := by
  simp only [join, height, heightOf]
  omega

/-- Every group adds three levels. -/
theorem height_nestedTree (n : Nat) : (nestedTree n).height = 3 * n + 1 := by
  induction n with
  | zero => rfl
  | succ n ih =>
    rw [nestedTree, height_join, ih]
    omega

/-- Every group adds eighteen characters. -/
theorem length_nestedText (n : Nat) : (nestedText n).length = 18 * n + 1 := by
  have hjoined : joined.length = 16 := by decide
  induction n with
  | zero => rfl
  | succ n ih =>
    rw [nestedText, List.length_append, List.length_cons, List.length_append, ih, hjoined,
      List.length_singleton]
    omega

/-- A nested text has no blanks around it. -/
theorem isTrimmed_nestedText (n : Nat) : IsTrimmed (nestedText n ++ joined) where
  head := by
    cases n with
    | zero => decide
    | succ n => simp [nestedText]; decide
  last := by
    have hlast : joined.getLast? = some 'a' := by decide
    rw [List.getLast?_append, hlast, Option.some_or]
    decide

/-- A derived operand makes a derived disjunction. -/
theorem derives_join {depth : Nat} {ts : List Terminal} {e : Expression}
    (h : Derives depth .operand ts e) :
    Derives depth .disjunction
      (ts ++ [.comparator .eq, .name "a", .conj, .name "a", .disj, .name "a"]) (join e) := by
  have hfield : Derives depth .operand [.name "a"] (.field "a") := .name "a"
  have hlast : Derives depth .negation [.name "a"] (.field "a") := .positive (.alone hfield)
  have hall := @Derives.conjunction depth
    [(ts ++ [.comparator .eq, .name "a"], .compare .eq e (.field "a")), ([.name "a"], .field "a")]
    (by simp) (by
      simp only [List.forall_mem_cons, List.not_mem_nil, false_imp_iff, implies_true, and_true]
      exact ⟨.positive (.compared .eq h hfield), hlast⟩)
  have hone := Derives.conjunction [([.name "a"], .field "a")] (by simp) (by simpa using hlast)
  have hany := Derives.disjunction [(_, _), (_, _)] (by simp) (by
    simp only [List.forall_mem_cons, List.not_mem_nil, false_imp_iff, implies_true, and_true]
    exact ⟨hall, hone⟩)
  simpa [join, ofChain] using hany

/-- The lexemes of what stands behind an operand. -/
theorem lexes_joined :
    Lexes joined [.comparator .eq, .name "a", .conj, .name "a", .disj, .name "a"] :=
  .space <| .token (l := .comparator .eq "==") (by decide) rfl (by decide) <| .space <|
    .token (l := .name "a") (by decide) rfl (by decide) <| .space <|
    .token (l := .conj "and") (by decide) rfl (by decide) <| .space <|
    .token (l := .name "a") (by decide) rfl (by decide) <| .space <|
    .token (l := .disj "or") (by decide) rfl (by decide) <| .space <|
    .token (l := .name "a") (by decide) rfl (by decide) .nil

/-- The text in its groups is read as the tree. -/
theorem exists_derives_nested (n : Nat) :
    ∃ us, Lexes (nestedText n) us ∧ Derives n .operand us (nestedTree n) := by
  induction n with
  | zero => exact ⟨_, .token (l := .name "a") (by decide) rfl (by decide) .nil, .name "a"⟩
  | succ n ih =>
    obtain ⟨us, hlexes, hderives⟩ := ih
    have hinside := hlexes.append (c := ' ') (by decide) lexes_joined
    exact ⟨_, (hinside.append (c := ')') (by decide) Lexes.nil.closeGroup).openGroup,
      .group (derives_join hderives)⟩

/-- As many groups as may be nested give a tree of the greatest height, and its data is not found
by calls that are nested less deep. -/
theorem height_le_of_parseText_nested :
    ∃ e, parseText (String.ofList (nestedText maxDepth ++ joined)) = .ok e ∧
      e.height = 3 * maxDepth + 4 ∧
      Traversal.data.within (3 * maxDepth + 4) e = some e.toValue ∧
      Traversal.data.within (3 * maxDepth + 3) e = none := by
  obtain ⟨us, hlexes, hderives⟩ := exists_derives_nested maxDepth
  have hall := hlexes.append (c := ' ') (by decide) lexes_joined
  have hnormal : normalize (nestedText maxDepth ++ joined) = nestedText maxDepth ++ joined :=
    normalize_eq_self (isTrimmed_nestedText maxDepth) (eval_notPrefix_of_lexes hall)
  have hheight : (join (nestedTree maxDepth)).height = 3 * maxDepth + 4 := by
    rw [height_join, height_nestedTree]
    rfl
  have hparse : parseText (String.ofList (nestedText maxDepth ++ joined)) =
      .ok (join (nestedTree maxDepth)) := by
    rw [parseText_eq_ok_iff_derives, String.toList_ofList, hnormal]
    refine ⟨List.append_ne_nil_of_right_ne_nil _ (by decide), ?_, _, hall, derives_join hderives⟩
    have hjoined : joined.length = 16 := by decide
    -- There are at most as many code points as characters.
    refine List.countP_le_length.trans ?_
    rw [List.length_append, length_nestedText, hjoined]
    decide
  obtain ⟨-, hdata, -⟩ := height_le_of_parseText hparse
  refine ⟨_, hparse, hheight, hdata, ?_⟩
  rw [Traversal.computes_toValue.within_eq, if_neg (by omega)]

end FormScaffold.Expression
