/-!
# Prefix codes

A prefix code is given by the lengths of its code words, one a symbol, where no word has the length
zero for symbols that do not occur. Words of one length follow each other in order of the symbols,
and longer words follow shorter ones.

Main definitions: `PrefixCode`, `PrefixCode.ofLengths?` and `PrefixCode.decode?`.
-/

namespace FormScaffold.Archive

/-- The longest code word. -/
def maxWord : Nat := 15

/-- A prefix code. -/
structure PrefixCode where
  /-- The number of words of each length, from one bit on. -/
  counts : List Nat
  /-- The symbols in order of their words. -/
  symbols : Array Nat

namespace PrefixCode

/-- The numbers of words by length. -/
def countsOf (lengths : List Nat) : List Nat :=
  (List.range maxWord).map fun k => lengths.count (k + 1)

/-- What is left of all words of fifteen bits, where that is not below nothing. -/
def spare? (counts : List Nat) : Option Nat :=
  counts.foldlM (fun left n => if n ≤ 2 * left then some (2 * left - n) else none) 1

/-- The code of lengths. Too many words make no code; too few only where there is at most one word,
of one bit, and `sparse` says that this will do. -/
def ofLengths? (sparse : Bool) (lengths : List Nat) : Option PrefixCode := do
  let counts := countsOf lengths
  let left ← spare? counts
  if left > 0 && !(sparse && (counts.drop 1).all (· == 0)) then none
  else
    let ordered := (List.range maxWord).flatMap fun k =>
      (lengths.zipIdx.filter fun p => p.1 == k + 1).map (·.2)
    return ⟨counts, ordered.toArray⟩

/-- What reading a symbol gives. -/
inductive Read where
  /-- A symbol, and the bits after its word. -/
  | symbol (n : Nat) (rest : List Bool)
  /-- The bits end inside a word. -/
  | cut
  /-- The bits start with no word. -/
  | invalid

/-- Reads a word bit by bit: `code` is the number that the bits so far write, `first` the first word
of that length and `index` the place of its symbol. -/
def decodeFrom (symbols : Array Nat) (code first index : Nat) : List Nat → List Bool → Read
  | [], _ => .invalid
  | _, [] => .cut
  | n :: counts, b :: bits =>
    let code := code + b.toNat
    if code < first + n then
      match symbols[index + (code - first)]? with
      | some s => .symbol s bits
      | none => .invalid
    else decodeFrom symbols (2 * code) (2 * (first + n)) (index + n) counts bits

/-- The symbol whose word the bits start with. -/
def decode (c : PrefixCode) (bits : List Bool) : Read :=
  decodeFrom c.symbols 0 0 0 c.counts bits

end PrefixCode

end FormScaffold.Archive
