import FormScaffold.Contract.Build
import FormScaffold.Proofs.Text.Words
import FormScaffold.Proofs.Traversal

/-! # Transitions of contracts

A transition enters a contract only when it names its states and its action.

* `exists_of_label?` — a label holds more than blanks;
* **`isNamed_of_readWorkflow`** — so do the names of the transitions of every workflow that is
  read. -/

namespace FormScaffold

open Text

/-! ## Labels -/

/-- A text that is left of another one without its blank ends is not blank. -/
theorem exists_of_trim {cs : List Char} (h : trim cs ≠ []) : ∃ c ∈ trim cs, isBlank c = false := by
  refine ⟨(trim cs).head h, List.head_mem h, (isTrimmed_trim cs).head _ ?_⟩
  rw [List.head?_eq_some_head h]
  rfl

/-- **A label holds more than blanks.** A text of blanks counts as no label. -/
theorem exists_of_label? {v : Value} {s : String} (h : v.label? = some s) :
    ∃ c ∈ s.toList, isBlank c = false := by
  have hstrip : ∃ t, strip t ≠ "" ∧ s = strip t := by
    unfold Value.label? at h
    split at h
    · simp at h
    · simp only at h
      split at h
      · simp at h
      · rename_i hne
        exact ⟨v.display, by simpa using hne, (Option.some.inj h).symm⟩
  obtain ⟨t, hne, rfl⟩ := hstrip
  rw [toList_strip]
  refine exists_of_trim fun hnil => hne ?_
  rw [← String.toList_inj, toList_strip, hnil]
  rfl

/-! ## Workflows -/

/-- The states and the action of a transition have names. -/
structure Transition.IsNamed (t : Transition) : Prop where
  source : ∃ c ∈ t.source.toList, isBlank c = false
  action : ∃ c ∈ t.action.toList, isBlank c = false
  target : ∃ c ∈ t.target.toList, isBlank c = false

/-- A transition that is read has names. -/
theorem isNamed_of_readTransition {v : Value} {t : Transition}
    (h : readTransition v = .ok (some t)) : t.IsNamed := by
  obtain ⟨raw, -, h⟩ := bind_eq_ok.1 h
  split at h
  · rename_i source action target hsource haction htarget
    obtain rfl := Option.some.inj (Except.ok.inj h)
    exact ⟨exists_of_label? hsource, exists_of_label? haction, exists_of_label? htarget⟩
  · exact absurd (Except.ok.inj h) (by simp)

/-- The complete transitions are among those that were read. -/
theorem mem_splitTransitions (place : Nat) {ts : List (Option Transition)} {t : Transition}
    (h : t ∈ (splitTransitions place ts).1) : some t ∈ ts := by
  induction ts generalizing place with
  | nil => simp [splitTransitions] at h
  | cons r ts ih =>
    cases r with
    | none => exact List.mem_cons_of_mem _ (ih _ (by simpa [splitTransitions] using h))
    | some r =>
      simp only [splitTransitions, List.mem_cons] at h
      rcases h with rfl | h
      · exact List.mem_cons_self
      · exact List.mem_cons_of_mem _ (ih _ h)

/-- The transitions that are read have names. One without an action is left out with a warning. -/
theorem isNamed_of_readParts {raw : Entries} {w : Option Workflow} {ts : List Transition}
    {ws : List Warning} (h : readParts raw = .ok (w, ts, ws)) : ∀ t ∈ ts, t.IsNamed := by
  obtain ⟨rawStates, -, h⟩ := bind_eq_ok.1 h
  obtain ⟨states, -, h⟩ := bind_eq_ok.1 h
  obtain ⟨rawTransitions, -, h⟩ := bind_eq_ok.1 h
  obtain ⟨read, hread, h⟩ := bind_eq_ok.1 h
  obtain ⟨-, hsplit⟩ := Prod.mk.inj (Except.ok.inj h)
  intro t ht
  have hmem : some t ∈ read := mem_splitTransitions 0 (by rw [hsplit]; exact ht)
  obtain ⟨v, -, hv⟩ := exists_of_mem_mapM hread hmem
  exact isNamed_of_readTransition hv

/-- **The transitions of a workflow that is read have names.** A workflow that is switched off has
no transitions. -/
theorem isNamed_of_readWorkflow {v : Value} {w : Option Workflow} {ts : List Transition}
    {ws : List Warning} (h : readWorkflow v = .ok (w, ts, ws)) : ∀ t ∈ ts, t.IsNamed := by
  unfold readWorkflow at h
  split at h
  · obtain ⟨-, hts⟩ := Prod.mk.inj (Except.ok.inj h)
    obtain ⟨rfl, -⟩ := Prod.mk.inj hts
    simp
  · obtain ⟨raw, -, h⟩ := bind_eq_ok.1 h
    split at h
    · exact isNamed_of_readParts h
    · obtain ⟨-, hts⟩ := Prod.mk.inj (Except.ok.inj h)
      obtain ⟨rfl, -⟩ := Prod.mk.inj hts
      simp

/-! ## Computations with a log -/

/-- Two computations with a log succeed when both do. -/
theorem Traced.outcome_bind_eq_ok {τ ε α β : Type} {x : Traced τ ε α} {f : α → Traced τ ε β}
    {b : β} : (x >>= f).outcome = .ok b ↔ ∃ a, x.outcome = .ok a ∧ (f a).outcome = .ok b := by
  cases hx : x.outcome with
  | error e => simp [Traced.bind_of_error f hx]
  | ok a => simp [Traced.bind_of_ok f hx]

/-- What is made of a result leaves an error as it is. -/
theorem Traced.outcome_bind_pure {τ ε α β : Type} (x : Traced τ ε α) (f : α → β) :
    (x >>= fun a => pure (f a)).outcome = x.outcome.map f := by
  cases hx : x.outcome with
  | error e => simp [Traced.bind_of_error _ hx, Except.map]
  | ok a => simp [Traced.bind_of_ok _ hx, Except.map]

/-- What is used was read. -/
theorem outcome_use_eq_ok {α : Type} {r : Except Fault α} {a : α} :
    (use r).outcome = .ok a ↔ r = .ok a := mapError_eq_ok

/-- Two computations with a log fail with the first that fails. -/
theorem Traced.outcome_bind_eq_error {τ ε α β : Type} {x : Traced τ ε α} {f : α → Traced τ ε β}
    {e : ε} : (x >>= f).outcome = .error e ↔
      x.outcome = .error e ∨ ∃ a, x.outcome = .ok a ∧ (f a).outcome = .error e := by
  cases hx : x.outcome with
  | error e' => simp [Traced.bind_of_error f hx]
  | ok a => simp [Traced.bind_of_ok f hx]

/-- What cannot be used is a fault. -/
theorem outcome_use_eq_error {α : Type} {r : Except Fault α} {f : Fault} :
    (use r).outcome = .error (.fault f) ↔ r = .error f := by
  cases r <;> simp [use, Except.mapError]

end FormScaffold
