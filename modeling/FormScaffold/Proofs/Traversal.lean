import Mathlib.Data.List.Forall2
import Mathlib.Data.List.Nodup

/-! # Steps that may fail

* `bind_eq_ok`, `exists_bind_eq_ok`, `bind_eq_error` — two steps succeed when both do, and fail with
  the first that fails;
* `mapError_eq_ok`, `map_eq_ok` — errors are worded anew, or results;
* `exists_of_map_toOption` — a result of which something is known is there;
* **`mapM_eq_ok`** — a traversal gives results when every item gives its own;
* `mapM_cons_eq_error` — it fails at its first item, or later;
* `exists_mapM_eq_ok` — it succeeds when every item does;
* `map_mapM_congr` — traversals that agree on every item agree;
* `exists_of_mem_mapM` — what it gives comes from an item;
* `exists_of_mem_forall₂`, `forall₂_of_forall₂`, `map_eq_map_of_forall₂` — lists that are related
  item by item;
* `nodup_eraseDups` — no item is left twice. -/

namespace FormScaffold

/-- Two steps succeed when both do. -/
theorem bind_eq_ok {ε α β : Type} {x : Except ε α} {f : α → Except ε β} {b : β} :
    x >>= f = .ok b ↔ ∃ a, x = .ok a ∧ f a = .ok b := by
  cases x with
  | error e => simp [bind, Except.bind]
  | ok a => simp [bind, Except.bind]

/-- After a step that gives a result, what follows decides. -/
theorem exists_bind_eq_ok {ε α β : Type} {x : Except ε α} {f : α → Except ε β} {a : α}
    (ha : x = .ok a) (h : ∃ b, f a = .ok b) : ∃ b, x >>= f = .ok b :=
  h.imp fun _ hb => bind_eq_ok.2 ⟨a, ha, hb⟩

/-- Two steps fail with the first that fails. -/
theorem bind_eq_error {ε α β : Type} {x : Except ε α} {f : α → Except ε β} {e : ε} :
    x >>= f = .error e ↔ x = .error e ∨ ∃ a, x = .ok a ∧ f a = .error e := by
  cases x with
  | error e' => simp [bind, Except.bind]
  | ok a => simp [bind, Except.bind]

/-- Another wording of an error leaves what succeeds. -/
theorem mapError_eq_ok {ε ε' α : Type} {f : ε → ε'} {x : Except ε α} {a : α} :
    x.mapError f = .ok a ↔ x = .ok a := by
  cases x <;> simp [Except.mapError]

/-- What is made of a result is there when the result is. -/
theorem map_eq_ok {ε α β : Type} {f : α → β} {x : Except ε α} {b : β} :
    x.map f = .ok b ↔ ∃ a, x = .ok a ∧ f a = b := by
  cases x <;> simp [Except.map]

/-- A result that is mapped is an error just when it was one. -/
theorem map_eq_error {ε α β : Type} {f : α → β} {x : Except ε α} {e : ε} :
    x.map f = .error e ↔ x = .error e := by
  cases x <;> simp [Except.map]

/-- A result of which something is known is there. -/
theorem exists_of_map_toOption {ε α β : Type} {f : α → β} {x : Except ε α} {b : β}
    (h : x.toOption.map f = some b) : ∃ a, x = .ok a ∧ f a = b := by
  cases x with
  | error e => exact absurd h (by simp [Except.toOption])
  | ok a => exact ⟨a, rfl, Option.some.inj h⟩

/-- **A traversal gives results when every item gives its own.** They stand in the order of the
items. -/
theorem mapM_eq_ok {ε α β : Type} {f : α → Except ε β} {xs : List α} {ys : List β} :
    xs.mapM f = .ok ys ↔ List.Forall₂ (fun x y => f x = .ok y) xs ys := by
  induction xs generalizing ys with
  | nil =>
    rw [List.mapM_nil, List.forall₂_nil_left_iff]
    constructor
    · rintro ⟨⟩
      rfl
    · rintro rfl
      rfl
  | cons x xs ih =>
    rw [List.mapM_cons, List.forall₂_cons_left_iff]
    cases hx : f x with
    | error e =>
      constructor
      · rintro ⟨⟩
      · rintro ⟨y, zs, ⟨⟩, -⟩
    | ok y =>
      cases hxs : xs.mapM f with
      | error e =>
        constructor
        · rintro ⟨⟩
        · rintro ⟨z, zs, -, hzs, -⟩
          rw [← ih, hxs] at hzs
          exact absurd hzs (by simp)
      | ok zs =>
        constructor
        · rintro ⟨⟩
          exact ⟨y, zs, rfl, ih.1 hxs, rfl⟩
        · rintro ⟨z, zs', hz, hzs, rfl⟩
          obtain rfl : y = z := by simpa using hz
          rw [← ih, hxs] at hzs
          obtain rfl : zs = zs' := by simpa using hzs
          rfl

/-- A traversal fails at its first item, or later. -/
theorem mapM_cons_eq_error {ε α β : Type} {f : α → Except ε β} {x : α} {xs : List α} {e : ε} :
    (x :: xs).mapM f = .error e ↔
      f x = .error e ∨ ∃ y, f x = .ok y ∧ xs.mapM f = .error e := by
  rw [List.mapM_cons, bind_eq_error]
  refine or_congr_right (exists_congr fun y => and_congr_right fun _ => ?_)
  cases xs.mapM f <;> simp [bind, Except.bind, pure, Except.pure]

/-- A traversal of items that all succeed does. -/
theorem exists_mapM_eq_ok {ε α β : Type} {f : α → Except ε β} {xs : List α}
    (h : ∀ x ∈ xs, ∃ y, f x = .ok y) : ∃ ys, xs.mapM f = .ok ys := by
  induction xs with
  | nil => exact ⟨[], rfl⟩
  | cons x xs ih =>
    obtain ⟨y, hy⟩ := h x List.mem_cons_self
    obtain ⟨ys, hys⟩ := ih fun z hz => h z (List.mem_cons_of_mem _ hz)
    exact ⟨y :: ys, mapM_eq_ok.2 (.cons hy (mapM_eq_ok.1 hys))⟩

/-- What is made of the results of a traversal may be made of each. -/
theorem map_mapM {ε α β γ : Type} (f : α → Except ε β) (u : β → γ) (xs : List α) :
    (xs.mapM f).map (List.map u) = xs.mapM fun x => (f x).map u := by
  induction xs with
  | nil => rfl
  | cons x xs ih =>
    rw [List.mapM_cons, List.mapM_cons, ← ih]
    cases f x with
    | error e => rfl
    | ok y => cases xs.mapM f <;> rfl

/-- **Traversals that agree on every item agree**, also on how they fail. What is made of the
results afterwards may make them agree. -/
theorem map_mapM_congr {ε α β γ δ : Type} {f : α → Except ε β} {g : α → Except ε γ} {u : β → δ}
    {v : γ → δ} (xs : List α) (h : ∀ x ∈ xs, (f x).map u = (g x).map v) :
    (xs.mapM f).map (List.map u) = (xs.mapM g).map (List.map v) := by
  rw [map_mapM, map_mapM]
  induction xs with
  | nil => rfl
  | cons x xs ih =>
    rw [List.mapM_cons, List.mapM_cons, h x List.mem_cons_self,
      ih fun y hy => h y (List.mem_cons_of_mem _ hy)]

/-- What is related to the items of a list is related to one of them each. -/
theorem exists_of_mem_forall₂ {α β : Type} {R : α → β → Prop} {xs : List α} {ys : List β}
    (h : List.Forall₂ R xs ys) {y : β} (hy : y ∈ ys) : ∃ x ∈ xs, R x y := by
  induction h with
  | nil => simp at hy
  | cons hx _ ih =>
    rcases List.mem_cons.1 hy with rfl | hy
    · exact ⟨_, List.mem_cons_self, hx⟩
    · obtain ⟨x, hmem, hx⟩ := ih hy
      exact ⟨x, List.mem_cons_of_mem _ hmem, hx⟩

/-- Two lists that are related to a third are related item by item. -/
theorem forall₂_of_forall₂ {α β γ : Type} {R : α → β → Prop} {S : α → γ → Prop} {T : β → γ → Prop}
    (hT : ∀ x y z, R x y → S x z → T y z) {xs : List α} {ys : List β} {zs : List γ}
    (hR : List.Forall₂ R xs ys) (hS : List.Forall₂ S xs zs) : List.Forall₂ T ys zs := by
  induction hR generalizing zs with
  | nil =>
    obtain rfl := List.forall₂_nil_left_iff.1 hS
    exact .nil
  | cons hxy _ ih =>
    obtain ⟨z, zs', hxz, hrest, rfl⟩ := List.forall₂_cons_left_iff.1 hS
    exact .cons (hT _ _ _ hxy hxz) (ih hrest)

/-- What is the same of related items is the same list. -/
theorem map_eq_map_of_forall₂ {α β γ : Type} {f : α → γ} {g : β → γ} {xs : List α} {ys : List β}
    (h : List.Forall₂ (fun x y => g y = f x) xs ys) : ys.map g = xs.map f := by
  induction h with
  | nil => rfl
  | cons hxy _ ih => rw [List.map_cons, List.map_cons, hxy, ih]

/-- What related items add to a list makes the same list. -/
theorem flatMap_eq_flatMap_of_forall₂ {α β γ : Type} {f : α → List γ} {g : β → List γ}
    {xs : List α} {ys : List β} (h : List.Forall₂ (fun x y => g y = f x) xs ys) :
    ys.flatMap g = xs.flatMap f := by
  induction h with
  | nil => rfl
  | cons hxy _ ih => rw [List.flatMap_cons, List.flatMap_cons, hxy, ih]

/-- What a traversal gives comes from an item. -/
theorem exists_of_mem_mapM {ε α β : Type} {f : α → Except ε β} {xs : List α} {ys : List β}
    (h : xs.mapM f = .ok ys) {y : β} (hy : y ∈ ys) : ∃ x ∈ xs, f x = .ok y :=
  exists_of_mem_forall₂ (mapM_eq_ok.1 h) hy

/-- No item is left twice when the repeated ones are erased. -/
theorem nodup_eraseDups {α : Type} [BEq α] [LawfulBEq α] (xs : List α) : xs.eraseDups.Nodup := by
  induction h : xs.length using Nat.strongRecOn generalizing xs with
  | _ n ih =>
    cases xs with
    | nil => simp
    | cons x xs =>
      rw [List.eraseDups_cons, List.nodup_cons]
      constructor
      · simp [List.mem_eraseDups]
      · refine ih _ ?_ _ rfl
        rw [← h, List.length_cons]
        exact Nat.lt_succ_of_le (List.length_filter_le _ _)

end FormScaffold
