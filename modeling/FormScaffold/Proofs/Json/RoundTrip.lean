import FormScaffold.Json.Reader
import FormScaffold.Proofs.Json.Scanning
import FormScaffold.Proofs.Json.WellFormed

/-! # Reading what was written

A written value is read back. Of entries under one key only one is read, so a record is read back
as it was when its keys are distinct.

* **`read?_write`** — a written value is read as the value with the entries under one key merged;
* **`read?_write_of_isWellFormed`** — a well-formed value is read back as it was. -/

namespace FormScaffold.Json

/-! ## Repeated keys -/

mutual

/-- The value in which entries of a record under one key are one entry: of repeated keys the first
keeps its place and the last its value. -/
def merged : Value → Value
  | .null => .null
  | .bool b => .bool b
  | .int n => .int n
  | .real x => .real x
  | .text s => .text s
  | .list items => .list (mergedItems items)
  | .record entries => .record (mergedOnto [] entries)

/-- The items of a list with their entries merged. -/
def mergedItems : List Value → List Value
  | [] => []
  | v :: vs => merged v :: mergedItems vs

/-- Entries merged onto others. -/
def mergedOnto (made : Entries) : List (String × Value) → Entries
  | [] => made
  | (k, v) :: es => mergedOnto (made.put k (merged v)) es

end

mutual

/-- Where no record repeats a key, there is nothing to merge. -/
theorem merged_of_isWellFormed : ∀ v, IsWellFormed v → merged v = v
  | .null, _ => rfl
  | .bool _, _ => rfl
  | .int _, _ => rfl
  | .real _, _ => rfl
  | .text _, _ => rfl
  | .list items, h => by rw [merged, mergedItems_of_areWellFormed items h]
  | .record entries, h => by
    rw [merged, mergedOnto_of_holdWellFormed [] entries h.1 h.2, List.nil_append]

/-- Items that are well-formed are not changed by merging. -/
theorem mergedItems_of_areWellFormed : ∀ vs, AreWellFormed vs → mergedItems vs = vs
  | [], _ => rfl
  | v :: vs, h => by
    rw [mergedItems, merged_of_isWellFormed v h.1, mergedItems_of_areWellFormed vs h.2]

/-- Entries that are well-formed, under keys that are not there yet, are put one behind the other.
-/
theorem mergedOnto_of_holdWellFormed (made : Entries) : ∀ es : Entries,
    ((made ++ es).map (·.1)).Nodup → HoldWellFormed es → mergedOnto made es = made ++ es
  | [], _, _ => by rw [mergedOnto, List.append_nil]
  | (k, v) :: es, hkeys, h => by
    have hmade : made ++ (k, v) :: es = made ++ [(k, v)] ++ es := by simp
    have hk : k ∉ made.map (·.1) := by
      rw [List.map_append, List.nodup_append] at hkeys
      exact fun hk => hkeys.2.2 k hk k (by simp) rfl
    rw [mergedOnto, merged_of_isWellFormed v h.1, put_of_not_mem hk, hmade]
    exact mergedOnto_of_holdWellFormed _ es (hmade ▸ hkeys) h.2

end

/-- Putting a value adds an entry when its key is new, and none otherwise. -/
theorem length_put (made : Entries) (key : String) (v : Value) :
    (made.put key v).length = if key ∈ made.map (·.1) then made.length else made.length + 1 := by
  rw [← List.length_map (·.1), map_fst_put]
  split <;> simp

/-- Merging never makes more entries than there were. -/
theorem length_mergedOnto_le (made es : Entries) :
    (mergedOnto made es).length ≤ made.length + es.length := by
  induction es generalizing made with
  | nil => simp [mergedOnto]
  | cons e es ih =>
    have hrest := ih (made.put e.1 (merged e.2))
    have hlength := length_put made e.1 (merged e.2)
    rw [mergedOnto, List.length_cons]
    split at hlength <;> omega

/-- Entries repeat no key when none of them is lost where they are merged. -/
theorem nodup_of_length_mergedOnto {made es : Entries} (hmade : (made.map (·.1)).Nodup)
    (h : made.length + es.length ≤ (mergedOnto made es).length) :
    ((made ++ es).map (·.1)).Nodup := by
  induction es generalizing made with
  | nil => simpa using hmade
  | cons e es ih =>
    have hrest := length_mergedOnto_le (made.put e.1 (merged e.2)) es
    have hlength := length_put made e.1 (merged e.2)
    rw [mergedOnto, List.length_cons] at h
    have hkey : e.1 ∉ made.map (·.1) := by
      intro hmem
      rw [if_pos hmem] at hlength
      omega
    rw [if_neg hkey] at hlength
    have hput : ((made.put e.1 (merged e.2)).map (·.1)).Nodup := by
      rw [map_fst_put, if_neg hkey, ← List.concat_eq_append]
      exact hmade.concat hkey
    have hnodup := ih hput (by omega)
    rw [put_of_not_mem hkey] at hnodup
    simpa using hnodup

/-! ## Tokens of values -/

namespace State

/-- Tokens are read one after the other. -/
theorem run_cons (s : State) (t : Token) (ts : List Token) :
    s.run (t :: ts) = (s.step t).bind fun s' => s'.run ts := List.foldlM_cons

/-- Where a value may stand, a scalar completes it. -/
theorem scalar_of_takesValue {expect : Expect} (h : expect.takesValue = true)
    (stack : List Frame) (v : Value) : (State.mk expect stack).scalar v = complete stack v :=
  if_pos h

/-- Where a value may stand, a text is complete at once. -/
theorem step_text {expect : Expect} (h : expect.takesValue = true) (stack : List Frame)
    (s : String) : (State.mk expect stack).step (.text s) = complete stack (.text s) := by
  cases expect with
  | value => rfl
  | valueOrEnd => rfl
  | _ => exact absurd h Bool.false_ne_true

end State

mutual

/-- **The tokens of a value make the value**, wherever one may stand. The reader keeps a stack of
what is being made. A value is complete on top of it when its last token was read, by induction on
the value with its items and entries. -/
theorem run_tokens {expect : Expect} (hexpect : expect.takesValue = true) (stack : List Frame)
    (rest : List Token) : ∀ v, (State.mk expect stack).run (tokens v ++ rest) =
      (State.complete stack (merged v)).bind fun s => s.run rest
  | .null => by
    rw [tokens, List.singleton_append, State.run_cons, State.step,
      State.scalar_of_takesValue hexpect, merged]
  | .bool b => by
    rw [tokens, List.singleton_append, State.run_cons, State.step,
      State.scalar_of_takesValue hexpect, merged]
  | .int n => by
    rw [tokens, List.singleton_append, State.run_cons, State.step,
      State.scalar_of_takesValue hexpect, merged]
  | .real x => by
    rw [tokens, List.singleton_append, State.run_cons, State.step,
      State.scalar_of_takesValue hexpect, merged]
  | .text s => by
    rw [tokens, List.singleton_append, State.run_cons, State.step_text hexpect, merged]
  | .list items => by
    rw [tokens, List.append_assoc, List.cons_append, List.singleton_append, State.run_cons,
      State.step, if_pos hexpect, Option.bind_some]
    exact run_itemTokens true [] stack rest items
  | .record entries => by
    rw [tokens, List.append_assoc, List.cons_append, List.singleton_append, State.run_cons,
      State.step, if_pos hexpect, Option.bind_some]
    exact run_entryTokens true [] stack rest entries

/-- Up to the closing bracket, the tokens of items add their merged items to the list that is being
made. -/
theorem run_itemTokens (isFirst : Bool) (made : List Value) (stack : List Frame)
    (rest : List Token) : ∀ vs,
    (State.mk (if isFirst then .valueOrEnd else .commaOrEnd) (.list made :: stack)).run
        (itemTokens isFirst vs ++ .closeList :: rest) =
      (State.complete stack (.list (made.reverse ++ mergedItems vs))).bind fun s => s.run rest
  | [] => by
    rw [itemTokens, List.nil_append, State.run_cons, mergedItems, List.append_nil]
    cases isFirst <;> rfl
  | v :: vs => by
    -- An item is read wherever a value may stand, and joins those before it.
    have hitem : ∀ {expect : Expect}, expect.takesValue = true →
        (State.mk expect (.list made :: stack)).run
            (tokens v ++ (itemTokens false vs ++ .closeList :: rest)) =
          (State.complete stack (.list (made.reverse ++ mergedItems (v :: vs)))).bind
            fun s => s.run rest := by
      intro expect hexpect
      rw [run_tokens hexpect, State.complete, Option.bind_some]
      refine (run_itemTokens false (merged v :: made) stack rest vs).trans ?_
      rw [List.reverse_cons, List.append_assoc, List.singleton_append, mergedItems]
    rw [itemTokens, List.append_assoc, List.append_assoc]
    cases isFirst with
    | true => exact hitem rfl
    | false =>
      rw [if_neg Bool.false_ne_true, if_neg Bool.false_ne_true, List.singleton_append,
        State.run_cons]
      exact hitem rfl

/-- Up to the closing brace, the tokens of entries merge their values into the record that is being
made. -/
theorem run_entryTokens (isFirst : Bool) (made : Entries) (stack : List Frame)
    (rest : List Token) : ∀ es,
    (State.mk (if isFirst then .keyOrEnd else .commaOrEnd) (.record made :: stack)).run
        (entryTokens isFirst es ++ .closeRecord :: rest) =
      (State.complete stack (.record (mergedOnto made es))).bind fun s => s.run rest
  | [] => by
    rw [entryTokens, List.nil_append, State.run_cons, mergedOnto]
    cases isFirst <;> rfl
  | (k, v) :: es => by
    have hentry : (State.mk .value (.keyed made k :: stack)).run
          (tokens v ++ (entryTokens false es ++ .closeRecord :: rest)) =
        (State.complete stack (.record (mergedOnto made ((k, v) :: es)))).bind
          fun s => s.run rest := by
      rw [run_tokens rfl, State.complete, Option.bind_some, mergedOnto]
      exact run_entryTokens false (made.put k (merged v)) stack rest es
    rw [entryTokens, List.append_assoc, List.append_assoc]
    cases isFirst with
    | true => exact hentry
    | false => exact hentry

end

/-! ## The round trip -/

section

variable {v : Value} (h : ∀ x ∈ reals v, ReadsBack x) (style : Style)
include h

/-- **A written value is read back**, with the entries of its records under one key merged. Of
entries under one key the first keeps its place and the last its value, as the reader has it. -/
theorem read?_write (level : Nat) : read? (write style level v) = some (merged v) := by
  have hscan := scan_write style level delimits_nil v h
  have hrun := run_tokens (show Expect.value.takesValue = true from rfl) [] [] v
  rw [List.append_nil, Token.scan, Option.map_some, List.append_nil] at hscan
  rw [List.append_nil] at hrun
  rw [read?, hscan, Option.bind_eq_bind, Option.bind_some, State.start, hrun]
  rfl

/-- **A value that repeats no key is read back as it was.** This holds in every style of writing, on
one line or as a block. -/
theorem read?_write_of_isWellFormed (hv : IsWellFormed v) (level : Nat) :
    read? (write style level v) = some v := by
  rw [read?_write h, merged_of_isWellFormed v hv]

end

end FormScaffold.Json
