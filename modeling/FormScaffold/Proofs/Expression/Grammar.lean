import FormScaffold.Expression.Parser

/-! # The grammar of expressions

What an expression means depends on its tokens without their spellings and places:

* **`Terminal`** — a token without its spelling: `==` and `===` are one terminal, and so are `and`
  and `&&`;
* **`IsList`** — the terminals of a list of literals;
* **`Derives depth symbol ts e`** — the terminals `ts` make up the expression `e`, as the grammar
  has it, with at most `depth` groups and negations around any of them.

    disjunction := conjunction ('or' conjunction)*
    conjunction := negation ('and' negation)*
    negation    := 'not' negation | comparison
    comparison  := operand (comparator operand | 'in' list | 'not' 'in' list)?
    operand     := literal | name | 'doc' '.' name | '(' disjunction ')'
    list        := '[' (literal (',' literal)* ','?)? ']' -/

namespace FormScaffold.Expression

/-! ## Terminals -/

/-- A token without its spelling and its place. -/
inductive Terminal where
  | literal (value : Value)
  | name (text : String)
  | conj
  | disj
  | neg
  | within
  | comparator (op : Comparator)
  | mark (m : Mark)

/-- The terminal of a lexeme. -/
def Lexeme.terminal : Lexeme → Terminal
  | .literal v => .literal v
  | .name text => .name text
  | .conj _ => .conj
  | .disj _ => .disj
  | .neg _ => .neg
  | .within => .within
  | .comparator op _ => .comparator op
  | .mark m => .mark m

/-- The terminal of a literal belongs to this literal alone. -/
theorem Lexeme.terminal_eq_literal {l : Lexeme} {v : Value} :
    l.terminal = .literal v ↔ l = .literal v := by
  cases l <;> simp [Lexeme.terminal]

/-- The terminal of a name belongs to this name alone. -/
theorem Lexeme.terminal_eq_name {l : Lexeme} {text : String} :
    l.terminal = .name text ↔ l = .name text := by
  cases l <;> simp [Lexeme.terminal]

/-- The terminal of a mark belongs to this mark alone. -/
theorem Lexeme.terminal_eq_mark {l : Lexeme} {m : Mark} :
    l.terminal = .mark m ↔ l = .mark m := by
  cases l <;> simp [Lexeme.terminal]

/-- The terminal of a membership belongs to one lexeme. -/
theorem Lexeme.terminal_eq_within {l : Lexeme} : l.terminal = .within ↔ l = .within := by
  cases l <;> simp [Lexeme.terminal]

/-- A terminal with several spellings does not say which of them it had. -/
theorem Lexeme.terminal_eq_neg {l : Lexeme} : l.terminal = .neg ↔ ∃ s, l = .neg s := by
  cases l <;> simp [Lexeme.terminal]

/-- The terminal of a comparison belongs to all lexemes that write it. -/
theorem Lexeme.terminal_eq_comparator {l : Lexeme} {op : Comparator} :
    l.terminal = .comparator op ↔ ∃ s, l = .comparator op s := by
  cases l <;> simp [Lexeme.terminal]

/-- The terminal of a token. -/
def Token.terminal (t : Token) : Terminal := t.lexeme.terminal

/-- The terminals of tokens. -/
def terminals (ts : List Token) : List Terminal := ts.map Token.terminal

/-! ## Lists of literals -/

/-- Literals with commas between them. -/
def commaSeparated (vs : List Value) : List Terminal :=
  [Terminal.mark .comma].intercalate (vs.map fun v => [.literal v])

/-- The terminals of a list of literals in brackets; a comma may stand after the last of them. -/
inductive IsList : List Terminal → List Value → Prop where
  | plain (vs : List Value) :
    IsList (.mark .openList :: commaSeparated vs ++ [.mark .closeList]) vs
  | trailing (v : Value) (vs : List Value) :
    IsList (.mark .openList :: commaSeparated (v :: vs) ++ [.mark .comma, .mark .closeList])
      (v :: vs)

/-! ## Expressions -/

/-- The symbols of the grammar that stand for expressions. -/
inductive Symbol where
  | disjunction
  | conjunction
  | negation
  | comparison
  | operand

/-- **The terminals make up the expression**, read as the symbol, with at most so many groups and
negations around any of them. A chain of one part is that part. -/
inductive Derives : Nat → Symbol → List Terminal → Expression → Prop where
  | disjunction {depth : Nat} (parts : List (List Terminal × Expression)) (hne : parts ≠ [])
    (hparts : ∀ p ∈ parts, Derives depth .conjunction p.1 p.2) :
    Derives depth .disjunction ([Terminal.disj].intercalate (parts.map (·.1)))
      (ofChain .any (parts.map (·.2)))
  | conjunction {depth : Nat} (parts : List (List Terminal × Expression)) (hne : parts ≠ [])
    (hparts : ∀ p ∈ parts, Derives depth .negation p.1 p.2) :
    Derives depth .conjunction ([Terminal.conj].intercalate (parts.map (·.1)))
      (ofChain .all (parts.map (·.2)))
  | negated {depth : Nat} {ts : List Terminal} {e : Expression}
    (h : Derives depth .negation ts e) : Derives (depth + 1) .negation (.neg :: ts) (.not e)
  | positive {depth : Nat} {ts : List Terminal} {e : Expression}
    (h : Derives depth .comparison ts e) : Derives depth .negation ts e
  | compared {depth : Nat} {ts us : List Terminal} {l r : Expression} (op : Comparator)
    (hl : Derives depth .operand ts l) (hr : Derives depth .operand us r) :
    Derives depth .comparison (ts ++ .comparator op :: us) (.compare op l r)
  | within {depth : Nat} {ts us : List Terminal} {l : Expression} {vs : List Value}
    (hl : Derives depth .operand ts l) (hvs : IsList us vs) :
    Derives depth .comparison (ts ++ .within :: us) (.member false l vs)
  | notWithin {depth : Nat} {ts us : List Terminal} {l : Expression} {vs : List Value}
    (hl : Derives depth .operand ts l) (hvs : IsList us vs) :
    Derives depth .comparison (ts ++ .neg :: .within :: us) (.member true l vs)
  | alone {depth : Nat} {ts : List Terminal} {e : Expression} (h : Derives depth .operand ts e) :
    Derives depth .comparison ts e
  | literal {depth : Nat} (v : Value) : Derives depth .operand [.literal v] (.literal v)
  | name {depth : Nat} (text : String) : Derives depth .operand [.name text] (.field text)
  | docName {depth : Nat} (text : String) :
    Derives depth .operand [.name "doc", .mark .point, .name text] (.field text)
  | group {depth : Nat} {ts : List Terminal} {e : Expression}
    (h : Derives depth .disjunction ts e) :
    Derives (depth + 1) .operand (.mark .openGroup :: ts ++ [.mark .closeGroup]) e

/-! ## What may follow -/

/-- The terminals that may stand after a symbol. -/
def Symbol.mayPrecede : Symbol → Terminal → Bool
  | _, .mark .closeGroup => true
  | .disjunction, _ => false
  | _, .disj => true
  | .conjunction, _ => false
  | _, .conj => true
  | .operand, .comparator _ => true
  | .operand, .within => true
  | .operand, .neg => true
  | _, _ => false

/-- The tokens start with one that may stand after the symbol, or there are none. -/
def Follows (symbol : Symbol) (ts : List Token) : Prop :=
  ∀ t ∈ ts.head?, symbol.mayPrecede t.terminal = true

/-- The symbol in which a symbol may end. -/
def Symbol.part : Symbol → Symbol
  | .disjunction => .conjunction
  | .conjunction => .negation
  | .negation => .comparison
  | .comparison => .operand
  | .operand => .operand

/-- What may follow a symbol may follow its parts. -/
theorem Symbol.mayPrecede_part {symbol : Symbol} {t : Terminal}
    (h : symbol.mayPrecede t = true) : symbol.part.mayPrecede t = true := by
  cases t with
  | mark m => cases m <;> cases symbol <;> first | rfl | exact absurd h Bool.false_ne_true
  | _ => cases symbol <;> first | rfl | exact absurd h Bool.false_ne_true

/-- What may stand after a symbol may stand after its last part. -/
theorem Follows.part {symbol : Symbol} {ts : List Token} (h : Follows symbol ts) :
    Follows symbol.part ts := fun t ht => Symbol.mayPrecede_part (h t ht)

end FormScaffold.Expression
