import FormScaffold.Proofs.Contract.Schemas

/-! # Endless numbers

A few raw values are read as whole numbers: the indices of listed rows, the levels of permission
rules, and the statuses of workflow states. What writes no number is passed over, but an endless
number stops the reading.

* **`OverflowsWhen`** — a use of values that fails just under a condition, and then at an endless
  number; `bind`, `overflowsWhen_mapM` — such uses one after the other;
* `overflowsWhen_listColumns`, `overflowsWhen_mergePermissions`, `overflowsWhen_readWorkflow` — when
  the parts of a contract that hold numbers fail. -/

namespace FormScaffold

/-- The use fails just when `P` holds, and then at an endless number. -/
def OverflowsWhen {α : Type} (r : Except Fault α) (P : Prop) : Prop :=
  ∀ f, r = .error f ↔ f = .endless ∧ P

/-- An infinity of either sign. -/
def Value.IsEndless (v : Value) : Prop := ∃ negative, v = .real (.infinite negative)

/-! ## Uses one after the other -/

namespace OverflowsWhen

variable {α β : Type} {r : Except Fault α} {P Q : Prop}

/-- When a use fails may be said in other words. -/
theorem congr (h : OverflowsWhen r P) (hPQ : P ↔ Q) : OverflowsWhen r Q :=
  fun f => by rw [h f, hPQ]

/-- What gives a result does not fail. -/
theorem of_ok {a : α} (h : r = .ok a) : OverflowsWhen r False := fun f => by simp [h]

/-- Of two uses the first or the second fails. -/
theorem bind {k : α → Except Fault β} (h : OverflowsWhen r P)
    (hk : ∀ a, r = .ok a → OverflowsWhen (k a) Q) : OverflowsWhen (r >>= k) (P ∨ Q) := by
  intro f
  cases r with
  | ok a =>
    -- The first use has a result, so that its condition does not hold.
    have hP : ¬P := fun hP => absurd ((h .endless).2 ⟨rfl, hP⟩) (by simp)
    show k a = .error f ↔ _
    rw [hk a rfl f]
    tauto
  | error g =>
    obtain ⟨rfl, hP⟩ := (h g).1 rfl
    show Except.error .endless = Except.error f ↔ _
    simp [hP, eq_comm]

/-- After a use that gives a result, only what follows fails. -/
theorem bind_of_ok {k : α → Except Fault β} {a : α} (ha : r = .ok a)
    (h : OverflowsWhen (k a) P) : OverflowsWhen (r >>= k) P := by
  rw [ha]
  exact h

/-- A use fails as before when what follows does not. -/
theorem bind_ok {k : α → Except Fault β} (h : OverflowsWhen r P)
    (hk : ∀ a, r = .ok a → ∃ b, k a = .ok b) : OverflowsWhen (r >>= k) P := by
  refine (h.bind (Q := False) fun a ha => ?_).congr (by simp)
  obtain ⟨b, hb⟩ := hk a ha
  exact of_ok hb

end OverflowsWhen

/-- A traversal fails where an item does. -/
theorem overflowsWhen_mapM {α β : Type} {f : α → Except Fault β} {P : α → Prop} {xs : List α}
    (h : ∀ x ∈ xs, OverflowsWhen (f x) (P x)) : OverflowsWhen (xs.mapM f) (∃ x ∈ xs, P x) := by
  induction xs with
  | nil => exact (OverflowsWhen.of_ok rfl).congr (by simp)
  | cons x xs ih =>
    obtain ⟨hx, hxs⟩ := List.forall_mem_cons.1 h
    rw [List.mapM_cons]
    refine (hx.bind fun y _ => (ih hxs).bind_ok fun ys _ => ⟨y :: ys, rfl⟩).congr ?_
    rw [List.exists_mem_cons_iff]

/-! ## Numbers -/

/-- An endless number has no whole part; what writes no number stands for the other one. -/
theorem overflowsWhen_toIntOr (v : Value) (other : Int) :
    OverflowsWhen (v.toIntOr other) v.IsEndless := by
  -- Every value but an infinity is passed over or has a whole part.
  have hother : ∀ f, v.toInt = .error f → f ≠ .endless → ¬v.IsEndless →
      OverflowsWhen (v.toIntOr other) v.IsEndless := by
    intro f hf hne hv
    refine (OverflowsWhen.of_ok (a := other) ?_).congr (by simp [hv])
    unfold Value.toIntOr
    rw [hf]
    cases f <;> first | rfl | exact absurd rfl hne
  have hok : ∀ n, v.toInt = .ok n → ¬v.IsEndless →
      OverflowsWhen (v.toIntOr other) v.IsEndless := by
    intro n hn hv
    refine (OverflowsWhen.of_ok (a := n) ?_).congr (by simp [hv])
    unfold Value.toIntOr
    rw [hn]
  cases v with
  | int n => exact hok n rfl (by simp [Value.IsEndless])
  | bool b => exact hok b.toNat rfl (by simp [Value.IsEndless])
  | real x =>
    cases x with
    | nan => exact hother _ rfl (by simp) (by simp [Value.IsEndless])
    | infinite negative =>
      refine fun f => ?_
      show Except.error .endless = Except.error f ↔ _
      simp [Value.IsEndless, eq_comm]
    | finite negative m e => exact hok _ rfl (by simp [Value.IsEndless])
  | text s =>
    cases hread : Number.readInt? s.toList with
    | some n => exact hok n (by rw [Value.toInt, hread]) (by simp [Value.IsEndless])
    | none =>
      exact hother _ (by rw [Value.toInt, hread]) (by simp) (by simp [Value.IsEndless])
  | null => exact hother _ rfl (by simp) (by simp [Value.IsEndless])
  | list items => exact hother _ rfl (by simp) (by simp [Value.IsEndless])
  | record es => exact hother _ rfl (by simp) (by simp [Value.IsEndless])

/-- An endless number counts as true. -/
theorem isEndless_orElse (v : Value) (n : Int) : (v.orElse (.int n)).IsEndless ↔ v.IsEndless := by
  have hother : ¬(Value.int n).IsEndless := by simp [Value.IsEndless]
  unfold Value.orElse
  split
  · exact Iff.rfl
  · rename_i hfalse
    refine iff_of_false hother ?_
    rintro ⟨negative, rfl⟩
    exact hfalse rfl

/-! ## The list -/

/-- The row is listed at an endless index. -/
def IsListedEndless (row : Entries) : Prop :=
  (row.get "in_list_view").flag = true ∧ (row.get "idx").IsEndless

/-- Placing rows fails just when one of them is listed at an endless index. -/
theorem overflowsWhen_placeRows (place : Nat) (rows : List Entries) :
    OverflowsWhen (placeRows place rows) (∃ row ∈ rows, IsListedEndless row) := by
  induction rows generalizing place with
  | nil => exact (OverflowsWhen.of_ok rfl).congr (by simp)
  | cons row rows ih =>
    rw [placeRows]
    -- Only the index of a listed row is read.
    split
    · rename_i hlisted
      refine ((overflowsWhen_toIntOr _ _).bind fun index _ =>
        (ih (place + 1)).bind_ok fun rest _ => ⟨_, rfl⟩).congr ?_
      rw [List.exists_mem_cons_iff, IsListedEndless]
      simp [hlisted]
    · rename_i hlisted
      refine (ih (place + 1)).congr ?_
      rw [List.exists_mem_cons_iff, IsListedEndless]
      simp [hlisted]

/-- A row whose name is a text has a label. -/
theorem exists_labelOf {row : Entries} {s : String} (h : row.get "fieldname" = .text s) :
    ∃ label, labelOf row = .ok label := by
  unfold labelOf
  split
  · exact ⟨_, rfl⟩
  · rw [h]
    exact ⟨_, rfl⟩

/-- **The columns of the list fail at an endless index of a listed row.** All other values of an
index are read as whole numbers, or the place of the row stands for them. -/
theorem overflowsWhen_listColumns {rows : List Entries}
    (h : ∀ row ∈ rows, ∃ s, row.get "fieldname" = .text s) :
    OverflowsWhen (listColumns rows) (∃ row ∈ rows, IsListedEndless row) := by
  refine (overflowsWhen_placeRows 0 rows).bind_ok fun placed hplaced => ?_
  refine exists_mapM_eq_ok fun p hp => ?_
  obtain ⟨s, hs⟩ := h p.raw (mem_of_mem_placeRows hplaced p (List.mem_mergeSort.1 hp))
  obtain ⟨label, hlabel⟩ := exists_labelOf hs
  exact ⟨_, bind_eq_ok.2 ⟨label, hlabel, rfl⟩⟩

/-! ## Permissions -/

/-- The elements of a list of records. -/
theorem elementsOrNone_records (rows : List Entries) :
    (Value.list (rows.map .record)).elementsOrNone = .ok (rows.map .record) := by
  cases rows <;> rfl

/-- **The rules of a role fail at an endless level.** Every other level can be read. -/
theorem overflowsWhen_mergeRules (rules : List Entries) :
    OverflowsWhen (mergeRules (.list (rules.map .record)))
      (∃ rule ∈ rules, (Entries.get rule "permlevel").IsEndless) := by
  refine OverflowsWhen.bind_of_ok (elementsOrNone_records rules) ?_
  have hrule : ∀ v ∈ rules.map Value.record, OverflowsWhen (Permission.Rule.ofValue v)
      (∃ rule, v = .record rule ∧ (Entries.get rule "permlevel").IsEndless) := by
    intro v hv
    obtain ⟨rule, -, rfl⟩ := List.mem_map.1 hv
    refine OverflowsWhen.bind_of_ok rfl ?_
    refine ((overflowsWhen_toIntOr _ 0).bind_ok fun level _ => ⟨_, rfl⟩).congr ?_
    simp [isEndless_orElse]
  refine ((overflowsWhen_mapM hrule).bind_ok fun read _ => ⟨_, rfl⟩).congr ?_
  simp

/-- Texts can be sorted. -/
theorem exists_sortKeys {keys : List Value} (h : ∀ key ∈ keys, ∃ s, key = .text s) :
    ∃ sorted, sortKeys keys = .ok sorted ∧ sorted.Perm keys := by
  have hordered : keysOrdered keys = true := by
    cases keys with
    | nil => rfl
    | cons key keys =>
      obtain ⟨⟨s, rfl⟩, hrest⟩ := List.forall_mem_cons.1 h
      refine List.all_eq_true.2 fun other hother => ?_
      obtain ⟨t, rfl⟩ := hrest other hother
      rfl
  exact ⟨_, by rw [sortKeys, if_pos hordered], List.mergeSort_perm _ _⟩

namespace Keyed

variable {α : Type} {m : Keyed α}

/-- Under different names everything is found. -/
theorem get?_of_mem (h : AreNames m.keys) {p : Value × α} (hp : p ∈ m) :
    m.get? p.1 = some p.2 := by
  induction m with
  | nil => exact absurd hp (by simp)
  | cons q m ih =>
    have hrest : AreNames (keys m) := h.sublist (List.sublist_cons_self _ _)
    obtain ⟨s, hs⟩ := h.text q.1 List.mem_cons_self
    rw [get?, List.find?_cons]
    rcases List.mem_cons.1 hp with rfl | hp
    · rw [hs, same_self]
      rfl
    · -- The entry in front has another name, and texts are the same only when they are equal.
      have hne : q.1 ≠ p.1 := by
        intro heq
        refine (List.nodup_cons.1 h.nodup).1 ?_
        show q.1 ∈ keys m
        rw [heq]
        exact List.mem_map_of_mem hp
      obtain ⟨t, ht⟩ := hrest.text p.1 (List.mem_map_of_mem hp)
      have hsame : q.1.same p.1 = false := by
        by_contra htrue
        rw [ht] at htrue hne
        exact hne (same_text (by simpa using htrue))
      rw [hsame]
      exact ih hrest hp

/-- What stands under names after one more thing was put there. -/
theorem mem_put (h : AreNames m.keys) {s : String} {a : α} {p : Value × α} :
    p ∈ m.put (.text s) a ↔ p = (.text s, a) ∨ p ∈ m ∧ p.1 ≠ .text s := by
  induction m with
  | nil => simp [put]
  | cons q m ih =>
    obtain ⟨k, old⟩ := q
    have hrest : AreNames (keys m) := h.sublist (List.sublist_cons_self _ _)
    have hnew : k ∉ keys m := (List.nodup_cons.1 h.nodup).1
    rw [put]
    split
    · rename_i hsame
      obtain rfl := same_text hsame
      -- The old thing is replaced, and nothing else has its name.
      have hother : ∀ q ∈ m, q.1 ≠ .text s := fun q hq heq =>
        hnew (heq ▸ List.mem_map_of_mem hq)
      rw [List.mem_cons, List.mem_cons]
      constructor
      · rintro (hp | hp)
        · exact .inl hp
        · exact .inr ⟨.inr hp, hother p hp⟩
      · rintro (hp | ⟨rfl | hp, hne⟩)
        · exact .inl hp
        · exact absurd rfl hne
        · exact .inr hp
    · rename_i hsame
      have hk : k ≠ .text s := by
        rintro rfl
        exact hsame (same_self s)
      rw [List.mem_cons, List.mem_cons, ih hrest]
      constructor
      · rintro (rfl | hp | ⟨hp, hne⟩)
        · exact .inr ⟨.inl rfl, hk⟩
        · exact .inl hp
        · exact .inr ⟨.inr hp, hne⟩
      · rintro (hp | ⟨hp | hp, hne⟩)
        · exact .inr (.inl hp)
        · exact .inl hp
        · exact .inr (.inr ⟨hp, hne⟩)

end Keyed

/-- The rules of a role that is called by a text. -/
theorem exists_rule_addRule {grouped : Keyed (List Entries)} (h : AreNames grouped.keys)
    (role : String) (rule : Entries) (Q : Entries → Prop) :
    (∃ p ∈ addRule grouped (.text role) rule, ∃ r ∈ p.2, Q r) ↔
      (∃ p ∈ grouped, ∃ r ∈ p.2, Q r) ∨ Q rule := by
  unfold addRule
  constructor
  · rintro ⟨p, hp, r, hr, hQ⟩
    rcases (Keyed.mem_put h).1 hp with rfl | ⟨hp, -⟩
    · rcases List.mem_append.1 hr with hr | hr
      · -- The rules that the role had are still there, with the new one behind them.
        cases hfound : grouped.get? (.text role) with
        | none => simp [hfound] at hr
        | some old =>
          rw [hfound] at hr
          obtain ⟨q, hq, rfl⟩ := Option.map_eq_some_iff.1 hfound
          exact .inl ⟨q, List.mem_of_find?_eq_some hq, r, hr, hQ⟩
      · exact .inr (List.mem_singleton.1 hr ▸ hQ)
    · exact .inl ⟨p, hp, r, hr, hQ⟩
  · rintro (⟨p, hp, r, hr, hQ⟩ | hQ)
    · -- An entry stays as it is, or is put again with its old rules.
      by_cases hrole : p.1 = .text role
      · have hfound : grouped.get? (.text role) = some p.2 := hrole ▸ Keyed.get?_of_mem h hp
        exact ⟨_, (Keyed.mem_put h).2 (.inl rfl), r, by simp [hfound, hr], hQ⟩
      · exact ⟨p, (Keyed.mem_put h).2 (.inr ⟨hp, hrole⟩), r, hr, hQ⟩
    · exact ⟨_, (Keyed.mem_put h).2 (.inl rfl), rule, by simp, hQ⟩

/-- A rule whose role is a text can always be put among the others. -/
theorem exists_groupRule {rule : Entries} (h : HasTextRole (.record rule))
    (made : Keyed (List Entries)) : ∃ grouped, groupRule made (.record rule) = .ok grouped := by
  refine exists_bind_eq_ok rfl ?_
  simp only
  split
  · rename_i htruthy
    obtain ⟨s, hs⟩ := h rule rfl htruthy
    exact ⟨_, bind_eq_ok.2 ⟨.text s, by rw [hs]; rfl, rfl⟩⟩
  · exact ⟨_, rfl⟩

/-- **Rules are kept under their roles**: every role is a text that counts, and the rules are those
that have a role. -/
theorem exists_groupRules {rules : List Entries}
    (h : ∀ rule ∈ rules, HasTextRole (.record rule)) :
    ∃ grouped, groupRules (rules.map .record) = .ok grouped ∧ AreNames grouped.keys ∧
      (∀ role ∈ grouped.keys, role.truthy = true) ∧
      ∀ Q : Entries → Prop, (∃ p ∈ grouped, ∃ r ∈ p.2, Q r) ↔
        ∃ rule ∈ rules, (Entries.get rule "role").truthy = true ∧ Q rule := by
  induction rules using List.reverseRecOn with
  | nil =>
    exact ⟨[], rfl, ⟨by simp [Keyed.keys], List.nodup_nil⟩, by simp [Keyed.keys], fun Q => by simp⟩
  | append_singleton rules rule ih =>
    obtain ⟨made, hmade, hnames, htruthy, hmem⟩ := ih fun r hr => h r (List.mem_append_left _ hr)
    have hrule := h rule (List.mem_append_right _ List.mem_cons_self)
    obtain ⟨grouped, hlast⟩ := exists_groupRule hrule made
    have hgrouped : groupRules ((rules ++ [rule]).map .record) = .ok grouped := by
      rw [List.map_append]
      exact groupRules_concat_eq_ok.2 ⟨made, hmade, hlast⟩
    obtain ⟨_, heq, hcases⟩ := groupRule_cases hrule hlast
    obtain rfl := Except.ok.inj heq
    refine ⟨grouped, hgrouped, ?_⟩
    -- A rule without a role that counts changes nothing, and another is added to its role.
    rcases hcases with ⟨hrole, rfl⟩ | ⟨s, hne, hs, rfl⟩
    · refine ⟨hnames, htruthy, fun Q => ?_⟩
      rw [hmem Q]
      simp [or_and_right, exists_or, hrole]
    · have hcounts : (Value.text s).truthy = true := by simpa [Value.truthy] using hne
      refine ⟨hnames.put s _, fun role hrole => ?_, fun Q => ?_⟩
      · obtain ⟨p, hp, rfl⟩ := List.mem_map.1 hrole
        rcases (Keyed.mem_put hnames).1 hp with rfl | ⟨hp, -⟩
        · exact hcounts
        · exact htruthy p.1 (List.mem_map_of_mem hp)
      · rw [exists_rule_addRule hnames, hmem Q]
        simp [or_and_right, exists_or, hs, hcounts]

/-- The rules of a role are found under it. -/
theorem get?_rulesAsValues {grouped : Keyed (List Entries)} (hnames : AreNames grouped.keys)
    {p : Value × List Entries} (hp : p ∈ grouped) :
    (rulesAsValues grouped).get? p.1 = some (.list (p.2.map .record)) := by
  refine Keyed.get?_of_mem (m := rulesAsValues grouped) (keys_rulesAsValues grouped ▸ hnames)
    (p := (p.1, .list (p.2.map .record))) ?_
  exact List.mem_map.2 ⟨p, hp, rfl⟩

/-- All roles count. -/
theorem roles_rulesAsValues {grouped : Keyed (List Entries)}
    (htruthy : ∀ role ∈ grouped.keys, role.truthy = true) :
    (rulesAsValues grouped).keys.filter Value.truthy = grouped.keys := by
  rw [keys_rulesAsValues, List.filter_eq_self]
  exact htruthy

/-- **Permissions fail at an endless level of a rule**, when the roles are texts. Rules of roles
that do not count are never merged, so that their levels are never read. -/
theorem overflowsWhen_mergePermissions {grouped : Keyed (List Entries)}
    (hnames : AreNames grouped.keys) (htruthy : ∀ role ∈ grouped.keys, role.truthy = true) :
    OverflowsWhen (mergePermissions (rulesAsValues grouped))
      (∃ p ∈ grouped, ∃ rule ∈ p.2, (Entries.get rule "permlevel").IsEndless) := by
  obtain ⟨roles, hroles, hperm⟩ := exists_sortKeys hnames.text
  have hrole : ∀ role ∈ roles, OverflowsWhen
      (do return (role, ← mergeRules (((rulesAsValues grouped).get? role).getD .null)))
      (∃ p ∈ grouped, p.1 = role ∧ ∃ rule ∈ p.2, (Entries.get rule "permlevel").IsEndless) := by
    intro role hmem
    obtain ⟨p, hp, rfl⟩ := List.mem_map.1 (hperm.subset hmem)
    rw [get?_rulesAsValues hnames hp]
    refine ((overflowsWhen_mergeRules p.2).bind_ok fun grants _ => ⟨_, rfl⟩).congr ?_
    constructor
    · exact fun hrule => ⟨p, hp, rfl, hrule⟩
    · -- Two entries with one role are the same entry.
      rintro ⟨q, hq, hqp, hrule⟩
      have hsame := Keyed.get?_of_mem hnames hq
      rw [hqp, Keyed.get?_of_mem hnames hp] at hsame
      rwa [Option.some.inj hsame]
  rw [← roles_rulesAsValues htruthy] at hroles
  refine OverflowsWhen.bind_of_ok hroles ?_
  refine (overflowsWhen_mapM hrole).congr ?_
  constructor
  · rintro ⟨role, -, p, hp, -, hrule⟩
    exact ⟨p, hp, hrule⟩
  · rintro ⟨p, hp, hrule⟩
    exact ⟨p.1, hperm.mem_iff.2 (List.mem_map_of_mem hp), p, hp, rfl, hrule⟩

/-! ## Workflows -/

/-- The state has a name and an endless status. -/
def IsStatedEndless (state : Entries) : Prop :=
  (state.get "state").label?.isSome = true ∧ (state.get "doc_status").IsEndless

/-- Reading a state fails just when it has a name and an endless status. -/
theorem overflowsWhen_readState (state : Entries) :
    OverflowsWhen (readState (.record state)) (IsStatedEndless state) := by
  refine OverflowsWhen.bind_of_ok rfl ?_
  unfold IsStatedEndless
  split
  · rename_i hnone
    exact (OverflowsWhen.of_ok rfl).congr (by simp [hnone])
  · rename_i name hname
    refine ((overflowsWhen_toIntOr _ 0).bind_ok fun status _ => ⟨_, rfl⟩).congr ?_
    simp [hname, isEndless_orElse]

/-- A transition that is a record can always be read. -/
theorem exists_readTransition (transition : Entries) :
    ∃ t, readTransition (.record transition) = .ok t := by
  cases hsource : (transition.get "state").label? <;>
    cases haction : (transition.get "action").label? <;>
    cases htarget : (transition.get "next_state").label? <;>
    exact ⟨_, bind_eq_ok.2 ⟨transition, rfl, by simp only [hsource, haction, htarget]; rfl⟩⟩

/-- Nothing that counts, or a list of records with a property. -/
def AreRows (P : Entries → Prop) (v : Value) : Prop :=
  v.truthy = true → ∃ rows : List Entries, v = .list (rows.map .record) ∧ ∀ row ∈ rows, P row

/-- The records in a list. -/
def Value.rows (v : Value) : List Entries :=
  match v with
  | .list items => items.filterMap fun item => item.entries.toOption
  | _ => []

/-- The records in a list of records are all of them. -/
theorem rows_records (rows : List Entries) : (Value.list (rows.map .record)).rows = rows := by
  show (rows.map Value.record).filterMap _ = rows
  rw [List.filterMap_map]
  exact List.filterMap_some

/-- What counts as nothing holds no records. -/
theorem rows_eq_nil {v : Value} (h : v.truthy = false) : v.rows = [] := by
  unfold Value.rows
  split
  · rename_i items
    have hitems : items = [] := by simpa [Value.truthy] using h
    rw [hitems]
    rfl
  · rfl

namespace AreRows

variable {P : Entries → Prop} {v : Value} (h : AreRows P v)

include h

/-- Rows are used as their records. -/
theorem elementsOrNone : v.elementsOrNone = .ok (v.rows.map .record) := by
  cases htruthy : v.truthy with
  | true =>
    obtain ⟨rows, rfl, -⟩ := h htruthy
    rw [rows_records, elementsOrNone_records]
  | false =>
    rw [rows_eq_nil htruthy, Value.elementsOrNone, htruthy]
    rfl

/-- What holds of rows holds of each of them. -/
theorem forall_mem : ∀ row ∈ v.rows, P row := by
  cases htruthy : v.truthy with
  | true =>
    obtain ⟨rows, rfl, hrows⟩ := h htruthy
    rwa [rows_records]
  | false =>
    rw [rows_eq_nil htruthy]
    simp

end AreRows

/-- The states and the transitions of a workflow are records. -/
structure IsWorkflow (raw : Entries) : Prop where
  states : AreRows (fun _ => True) (raw.get "states")
  transitions : AreRows (fun _ => True) (raw.get "transitions")

/-- The workflow counts, is not switched off, and has a named state with an endless status. -/
def IsTrackedEndless (v : Value) : Prop :=
  ∃ raw : Entries, v = .record raw ∧ flagOrSet raw "is_active" = true ∧
    ∃ state ∈ (raw.get "states").rows, IsStatedEndless state

/-- Reading a workflow fails just when one of its states has a name and an endless status. -/
theorem overflowsWhen_readParts {raw : Entries} (h : IsWorkflow raw) :
    OverflowsWhen (readParts raw) (∃ state ∈ (raw.get "states").rows, IsStatedEndless state) := by
  have hstate : ∀ v ∈ (raw.get "states").rows.map Value.record,
      OverflowsWhen (readState v) (∃ state, v = .record state ∧ IsStatedEndless state) := by
    intro v hv
    obtain ⟨state, -, rfl⟩ := List.mem_map.1 hv
    exact (overflowsWhen_readState state).congr (by simp)
  have htransition : ∀ v ∈ (raw.get "transitions").rows.map Value.record,
      ∃ t, readTransition v = .ok t := by
    intro v hv
    obtain ⟨transition, -, rfl⟩ := List.mem_map.1 hv
    exact exists_readTransition transition
  refine OverflowsWhen.bind_of_ok h.states.elementsOrNone ?_
  refine ((overflowsWhen_mapM hstate).bind_ok fun states _ => ?_).congr (by simp)
  obtain ⟨transitions, htransitions⟩ := exists_mapM_eq_ok htransition
  exact ⟨_, bind_eq_ok.2 ⟨_, h.transitions.elementsOrNone,
    bind_eq_ok.2 ⟨_, htransitions, rfl⟩⟩⟩

/-- **A workflow fails at an endless status of a named state**, unless it is switched off. A
workflow that is switched off is not read at all, and a state without a name is passed over before
its status is read. -/
theorem overflowsWhen_readWorkflow {v : Value}
    (h : v.truthy = true → ∃ raw, v = .record raw ∧ IsWorkflow raw) :
    OverflowsWhen (readWorkflow v) (IsTrackedEndless v) := by
  unfold readWorkflow
  cases htruthy : v.truthy with
  | false =>
    -- A record that counts as nothing is empty, and has no states.
    refine (OverflowsWhen.of_ok rfl).congr (iff_of_false id ?_)
    rintro ⟨raw, rfl, -, state, hstate, -⟩
    have hraw : raw = [] := by simpa [Value.truthy] using htruthy
    rw [hraw] at hstate
    exact absurd hstate (by simp [Entries.get, Value.rows])
  | true =>
    obtain ⟨raw, rfl, hraw⟩ := h htruthy
    refine OverflowsWhen.bind_of_ok rfl ?_
    cases hactive : flagOrSet raw "is_active" with
    | false => exact (OverflowsWhen.of_ok rfl).congr (by simp [IsTrackedEndless, hactive])
    | true => exact (overflowsWhen_readParts hraw).congr (by simp [IsTrackedEndless, hactive])

end FormScaffold
