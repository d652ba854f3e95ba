import FormScaffold.Proofs.Contract.Overflow

/-! # What rules grant

Permission rules come in one list. They are grouped by their roles, and the rules of each role are
merged level by level.

* **`get?_groupRules`** — under a role stand its rules, in their order;
* `exists_mergePermissions` — every role gets what its rules grant;
* **`Permission.granted_iff`** — a capability is granted when a level grants it that no higher level
  denies;
* **`effectivePermissions_iff`** — so that permissions are what the last rules of the levels say. -/

namespace FormScaffold

open Permission

/-! ## Rules by role -/

namespace Keyed

variable {α : Type}

/-- What was put under a text is found there, and nothing else changes. -/
theorem get?_put_text (m : Keyed α) (s t : String) (a : α) :
    (m.put (.text s) a).get? (.text t) = if s = t then some a else m.get? (.text t) := by
  induction m with
  | nil =>
    rw [put, get?_cons]
    simp only [same_text_iff]
  | cons q m ih =>
    obtain ⟨k, old⟩ := q
    rw [put]
    split
    · rename_i hk
      obtain rfl := same_text hk
      rw [get?_cons, get?_cons]
      simp only [same_text_iff]
      split <;> rfl
    · rename_i hk
      rw [get?_cons, get?_cons, ih]
      split
      · rename_i hkt
        -- The entry in front keeps its place, since it has another name.
        have hne : s ≠ t := by
          rintro rfl
          exact hk hkt
        rw [if_neg hne]
      · rfl

/-- Nothing is found where no key is the text. -/
theorem get?_eq_none_iff {m : Keyed α} {s : String} :
    m.get? (.text s) = none ↔ .text s ∉ m.keys := by
  rw [get?, Option.map_eq_none_iff, List.find?_eq_none]
  constructor
  · intro h hmem
    obtain ⟨p, hp, hs⟩ := List.mem_map.1 hmem
    exact h p hp (hs ▸ same_self s)
  · intro h p hp hsame
    exact h (List.mem_map.2 ⟨p, hp, same_text hsame⟩)

end Keyed

namespace Permission

/-- The rules of a role, in their order. -/
def rulesOf (rules : List Entries) (role : String) : List Entries :=
  rules.filter fun rule => (rule.get "role").same (.text role)

/-- The level of a rule whose level is not endless. -/
def levelIn (rule : Entries) : Int := (levelOf rule).toOption.getD 0

/-- The rules of a role at a level, in their order. -/
def rulesAt (rules : List Entries) (role : String) (level : Int) : List Entries :=
  (rulesOf rules role).filter fun rule => levelIn rule == level

/-- The rules of a role at a level say `answer` of a capability: a rule has something under it that
reads as the answer, and no later one has anything there. -/
def SaysLast (rules : List Entries) (role : String) (level : Int) (c : Capability) (answer : Bool) :
    Prop :=
  ∃ before rule after, rulesAt rules role level = before ++ rule :: after ∧
    rule.get c.word ≠ .null ∧ (rule.get c.word).flag = answer ∧
    ∀ later ∈ after, later.get c.word = .null

end Permission

/-- One rule is a rule of a role when it is about the role. -/
theorem rulesOf_singleton (rule : Entries) (role : String) :
    rulesOf [rule] role = if (rule.get "role").same (.text role) then [rule] else [] := by
  rw [rulesOf, List.filter_cons, List.filter_nil]

/-- **Rules are grouped as they come**: under a role stand its rules, and nothing where there are
none. -/
theorem get?_groupRules {rules : List Entries} (h : ∀ rule ∈ rules, HasTextRole (.record rule))
    {grouped : Keyed (List Entries)} (hgrouped : groupRules (rules.map .record) = .ok grouped)
    (role : String) :
    grouped.get? (.text role) =
      if role = "" ∨ rulesOf rules role = [] then none else some (rulesOf rules role) := by
  induction rules using List.reverseRecOn generalizing grouped with
  | nil =>
    obtain rfl : [] = grouped := Except.ok.inj hgrouped
    simp [rulesOf]
  | append_singleton rules rule ih =>
    have hrule := h rule (List.mem_append_right _ List.mem_cons_self)
    have hsplit : rulesOf (rules ++ [rule]) role =
        rulesOf rules role ++ rulesOf [rule] role := List.filter_append ..
    rw [List.map_append] at hgrouped
    obtain ⟨made, hmade, hlast⟩ := groupRules_concat_eq_ok.1 hgrouped
    obtain ⟨_, heq, hcases⟩ := groupRule_cases hrule hlast
    obtain rfl := Except.ok.inj heq
    replace ih := ih (fun r hr => h r (List.mem_append_left _ hr)) hmade
    rw [hsplit, rulesOf_singleton]
    rcases hcases with ⟨hfalse, rfl⟩ | ⟨s, hne, hs, rfl⟩
    · by_cases hsame : (rule.get "role").same (.text role) = true
      · -- A role that does not count and is a text is empty.
        have hempty : role = "" := by simpa [same_text hsame, Value.truthy] using hfalse
        rw [ih, if_pos (.inl hempty), if_pos (.inl hempty)]
      · rw [if_neg hsame, List.append_nil, ih]
    · rw [hs, addRule, Keyed.get?_put_text]
      by_cases hsame : s = role
      · subst hsame
        -- The rules of the role so far are those that were grouped.
        have hold : (made.get? (.text s)).getD [] = rulesOf rules s := by
          rw [ih]
          by_cases hnil : rulesOf rules s = [] <;> simp [hne, hnil]
        rw [if_pos rfl, if_pos (same_self s), hold, if_neg (by simp [hne])]
      · have hother : ¬(Value.text s).same (.text role) = true :=
          fun htrue => hsame (Value.text.inj (same_text htrue))
        rw [if_neg hsame, if_neg hother, List.append_nil, ih]

/-! ## Grants -/

/-- A level that is not endless can be read. -/
theorem levelOf_eq {rule : Entries} (h : ¬(rule.get "permlevel").IsEndless) :
    levelOf rule = .ok (levelIn rule) := by
  cases hlevel : levelOf rule with
  | ok level => rw [levelIn, hlevel]; rfl
  | error f =>
    have hendless := ((overflowsWhen_toIntOr _ _ f).1 hlevel).2
    exact absurd ((isEndless_orElse _ _).1 hendless) h

/-- A rule as it is read. -/
def readRule (rule : Entries) : Rule := ⟨levelIn rule, rule⟩

/-- **Merging rules grants what the rules grant as they are read**, when no level is endless. -/
theorem mergeRules_eq {rules : List Entries}
    (h : ∀ rule ∈ rules, ¬(Entries.get rule "permlevel").IsEndless) :
    mergeRules (.list (rules.map .record)) = .ok (granted (rules.map readRule)) := by
  have hread : (rules.map Value.record).mapM Rule.ofValue = .ok (rules.map readRule) := by
    refine mapM_eq_ok.2 (List.forall₂_map_left_iff.2 (List.forall₂_map_right_iff.2
      (List.forall₂_same.2 fun rule hrule => ?_)))
    refine bind_eq_ok.2 ⟨rule, rfl, bind_eq_ok.2 ⟨levelIn rule, levelOf_eq (h rule hrule), rfl⟩⟩
  exact bind_eq_ok.2 ⟨_, elementsOrNone_records rules, bind_eq_ok.2 ⟨_, hread, rfl⟩⟩

/-- What the rules of a role grant it, among rules that are grouped by role. -/
def grantsOf (grouped : Keyed (List Entries)) (role : Value) : Grants :=
  granted (((grouped.get? role).getD []).map readRule)

/-- **Every role gets what its rules grant.** No endless level is among the rules, so that the merge
cannot fail; a role with rules has an entry even when it is granted nothing. -/
theorem exists_mergePermissions {grouped : Keyed (List Entries)} (hnames : AreNames grouped.keys)
    (htruthy : ∀ role ∈ grouped.keys, role.truthy = true)
    (hlevels : ∀ p ∈ grouped, ∀ rule ∈ p.2, ¬(Entries.get rule "permlevel").IsEndless) :
    ∃ perms, mergePermissions (rulesAsValues grouped) = .ok perms ∧
      ∀ role : String, perms.get? (.text role) =
        (grouped.get? (.text role)).map fun rules => granted (rules.map readRule) := by
  obtain ⟨roles, hroles, hperm⟩ := exists_sortKeys hnames.text
  have hmerged : (roles.mapM fun role => do
      return (role, ← mergeRules (((rulesAsValues grouped).get? role).getD .null))) =
        Except.ok (roles.map fun role => (role, grantsOf grouped role)) := by
    refine mapM_eq_ok.2 (List.forall₂_map_right_iff.2 (List.forall₂_same.2 fun role hrole => ?_))
    obtain ⟨p, hp, rfl⟩ := List.mem_map.1 (hperm.subset hrole)
    have hgrants : grantsOf grouped p.1 = granted (p.2.map readRule) := by
      rw [grantsOf, Keyed.get?_of_mem hnames hp, Option.getD_some]
    rw [get?_rulesAsValues hnames hp, Option.getD_some, mergeRules_eq (hlevels p hp), hgrants]
    rfl
  rw [← roles_rulesAsValues htruthy] at hroles
  refine ⟨_, bind_eq_ok.2 ⟨roles, hroles, hmerged⟩, fun role => ?_⟩
  have hroleKeys : Keyed.keys (roles.map fun role => (role, grantsOf grouped role)) = roles := by
    simp [Keyed.keys, Function.comp_def]
  -- The roles are the same before and after they are sorted, so that one is found as the other is.
  cases hfound : grouped.get? (.text role) with
  | none =>
    rw [Option.map_none, Keyed.get?_eq_none_iff, hroleKeys, hperm.mem_iff]
    exact Keyed.get?_eq_none_iff.1 hfound
  | some rules =>
    have hrole : Value.text role ∈ roles := by
      by_contra hrole
      rw [hperm.mem_iff, ← Keyed.get?_eq_none_iff, hfound] at hrole
      exact absurd hrole (by simp)
    have hnamed : AreNames (Keyed.keys (roles.map fun role => (role, grantsOf grouped role))) := by
      rw [hroleKeys]
      exact hnames.perm hperm
    have hgranted := Keyed.get?_of_mem hnamed
      (List.mem_map_of_mem (f := fun role => (role, grantsOf grouped role)) hrole)
    rw [hgranted, grantsOf, hfound, Option.getD_some, Option.map_some]

/-! ## What a level says -/

/-- The last thing that a list gives is that of an item after which no other gives anything. -/
theorem getLast?_filterMap_eq_some_iff {α β : Type} {f : α → Option β} {xs : List α} {y : β} :
    (xs.filterMap f).getLast? = some y ↔
      ∃ before x after, xs = before ++ x :: after ∧ f x = some y ∧ ∀ z ∈ after, f z = none := by
  rw [List.getLast?_eq_some_iff]
  constructor
  · rintro ⟨ys, hys⟩
    obtain ⟨before, rest, hxs, -, hrest⟩ := List.filterMap_eq_append_iff.1 hys
    obtain ⟨silent, x, after, hrest, -, hx, hafter⟩ := List.filterMap_eq_cons_iff.1 hrest
    refine ⟨before ++ silent, x, after, by rw [hxs, hrest, List.append_assoc], hx, ?_⟩
    exact List.filterMap_eq_nil_iff.1 hafter
  · rintro ⟨before, x, after, hxs, hx, hafter⟩
    refine ⟨before.filterMap f, ?_⟩
    rw [hxs, List.filterMap_append, List.filterMap_cons, hx, List.filterMap_eq_nil_iff.2 hafter]

namespace Permission

/-- A rule says something of a capability when something stands under it, and says what this reads
as. -/
theorem verdict_eq_some_iff {r : Rule} {c : Capability} {answer : Bool} :
    r.verdict c = some answer ↔
      r.entries.get c.word ≠ .null ∧ (r.entries.get c.word).flag = answer := by
  cases h : r.entries.get c.word <;> simp [Rule.verdict, h]

/-- A rule says nothing of a capability when nothing stands under it. -/
theorem verdict_eq_none_iff {r : Rule} {c : Capability} :
    r.verdict c = none ↔ r.entries.get c.word = .null := by
  cases h : r.entries.get c.word <;> simp [Rule.verdict, h]

/-- What the rules of a role say at a level is what the last of them that says something says. -/
theorem said_rulesOf_eq_some_iff {rules : List Entries} {role : String} {level : Int}
    {c : Capability} {answer : Bool} :
    said ((rulesOf rules role).map readRule) level c = some answer ↔
      SaysLast rules role level c answer := by
  have hrules : ((rulesOf rules role).map readRule).filter (·.level == level) =
      (rulesAt rules role level).map readRule := List.filter_map
  rw [said, hrules, List.filterMap_map, getLast?_filterMap_eq_some_iff]
  simp only [Function.comp_apply, verdict_eq_some_iff, verdict_eq_none_iff, and_assoc]
  rfl

/-- A level that says something holds a rule. -/
theorem mem_levelsSaying {rules : List Rule} {level : Int} {c : Capability} {answer : Bool} :
    level ∈ levelsSaying rules c answer ↔ said rules level c = some answer := by
  rw [levelsSaying, List.mem_filter, beq_iff_eq, and_iff_right_iff_imp]
  intro hsaid
  obtain ⟨rule, hrule, -⟩ := List.mem_filterMap.1 (List.mem_of_getLast? hsaid)
  obtain ⟨hmem, hlevel⟩ := List.mem_filter.1 hrule
  rw [levels, List.mem_eraseDups, List.mem_map]
  exact ⟨rule, hmem, by simpa using hlevel⟩

/-- **A capability is granted when a level grants it that no higher level denies.** Levels are asked
from the highest to the lowest, and the first one that says anything of the capability decides. -/
theorem granted_iff {rules : List Rule} {c : Capability} :
    granted rules c = true ↔ ∃ level, said rules level c = some true ∧
      ∀ higher, level < higher → said rules higher c ≠ some false := by
  unfold granted
  cases hgrant : (levelsSaying rules c true).max? with
  | none =>
    have hnone : ∀ level, said rules level c ≠ some true := by
      intro level hsaid
      have hmem := mem_levelsSaying.2 hsaid
      rw [List.max?_eq_none_iff.1 hgrant] at hmem
      exact absurd hmem List.not_mem_nil
    exact iff_of_false Bool.false_ne_true fun ⟨level, hsaid, _⟩ => hnone level hsaid
  | some grant =>
    obtain ⟨hmem, hhighest⟩ := List.max?_eq_some_iff.1 hgrant
    have hsaid := mem_levelsSaying.1 hmem
    cases hdeny : (levelsSaying rules c false).max? with
    | none =>
      refine iff_of_true rfl ⟨grant, hsaid, fun higher _ hfalse => ?_⟩
      have hmem := mem_levelsSaying.2 hfalse
      rw [List.max?_eq_none_iff.1 hdeny] at hmem
      exact absurd hmem List.not_mem_nil
    | some deny =>
      obtain ⟨hdenied, hdenies⟩ := List.max?_eq_some_iff.1 hdeny
      have hfalse := mem_levelsSaying.1 hdenied
      rw [decide_eq_true_iff]
      constructor
      · intro hlt
        refine ⟨grant, hsaid, fun higher hhigher hother => ?_⟩
        have hle := hdenies higher (mem_levelsSaying.2 hother)
        omega
      · rintro ⟨level, hlevel, hnone⟩
        have hle := hhighest level (mem_levelsSaying.2 hlevel)
        -- The highest denial is neither above the level nor at it, where the answer is another.
        have hnot : ¬level < deny := fun hlt => hnone deny hlt hfalse
        have hne : level ≠ deny := by
          rintro rfl
          rw [hlevel] at hfalse
          exact absurd hfalse (by simp)
        omega

end Permission

/-! ## Permissions -/

/-- What a flat list of rules gives each role. -/
def effectivePermissions (rules : Value) : Except Fault (Keyed Grants) := do
  mergePermissions (rulesAsValues (← groupPermissions rules))

/-- A role is a text where there is one, and no level is endless: whole numbers, texts and nothing
are levels. -/
def AreFlat (rules : List Entries) : Prop :=
  ∀ rule ∈ rules, HasTextRole (.record rule) ∧ ¬(Entries.get rule "permlevel").IsEndless

/-- **Flat rules always give permissions**: to each role that has a name and a rule, what its own
rules grant, and nothing to others. -/
theorem exists_effectivePermissions {rules : List Entries} (h : AreFlat rules) :
    ∃ perms, effectivePermissions (.list (rules.map .record)) = .ok perms ∧
      ∀ role : String, perms.get? (.text role) =
        if role = "" ∨ rulesOf rules role = [] then none
        else some (granted ((rulesOf rules role).map readRule)) := by
  have hroles : ∀ rule ∈ rules, HasTextRole (.record rule) := fun rule hrule => (h rule hrule).1
  obtain ⟨grouped, hgrouped, hnames, htruthy, hmem⟩ :=
    exists_groupRules hroles
  have hlevels : ∀ p ∈ grouped, ∀ rule ∈ p.2, ¬(Entries.get rule "permlevel").IsEndless := by
    intro p hp rule hrule hendless
    obtain ⟨rule, hrule, -, hendless⟩ := (hmem fun rule =>
      (Entries.get rule "permlevel").IsEndless).1 ⟨p, hp, rule, hrule, hendless⟩
    exact (h rule hrule).2 hendless
  obtain ⟨perms, hperms, hget⟩ := exists_mergePermissions hnames htruthy hlevels
  refine ⟨perms, ?_, fun role => ?_⟩
  · exact bind_eq_ok.2 ⟨grouped, bind_eq_ok.2 ⟨_, elementsOrNone_records rules, hgrouped⟩, hperms⟩
  · rw [hget, get?_groupRules hroles hgrouped]
    split <;> rfl

/-- The rules of a role are those whose role is this text. -/
theorem mem_rulesOf {rules : List Entries} {role : String} {rule : Entries} :
    rule ∈ rulesOf rules role ↔ rule ∈ rules ∧ rule.get "role" = .text role := by
  rw [rulesOf, List.mem_filter]
  exact and_congr_right fun _ => ⟨same_text, fun h => h ▸ same_self role⟩

/-- What a role is granted is settled by its rules at each level. -/
theorem granted_congr {rules rules' : List Entries} {role : String}
    (h : ∀ level, rulesAt rules role level = rulesAt rules' role level) :
    granted ((rulesOf rules role).map readRule) = granted ((rulesOf rules' role).map readRule) := by
  have hanswer : ∀ level c answer, SaysLast rules role level c answer ↔
      SaysLast rules' role level c answer := by
    intro level c answer
    rw [SaysLast, SaysLast, h]
  funext c
  rw [Bool.eq_iff_iff, granted_iff, granted_iff]
  simp only [ne_eq, said_rulesOf_eq_some_iff, hanswer]

/-- A role has no rules when it has none at any level. -/
theorem rulesOf_eq_nil_iff {rules : List Entries} {role : String} :
    rulesOf rules role = [] ↔ ∀ level, rulesAt rules role level = [] := by
  constructor
  · intro h level
    rw [rulesAt, h, List.filter_nil]
  · intro h
    refine List.eq_nil_iff_forall_not_mem.2 fun rule hrule => ?_
    have hmem : rule ∈ rulesAt rules role (levelIn rule) :=
      List.mem_filter.2 ⟨hrule, beq_self_eq_true _⟩
    rw [h] at hmem
    exact absurd hmem List.not_mem_nil

/-- **Permissions are what the rules say.** Every flat list gives permissions. A role has an entry
when it has a name and a rule. A capability is granted to it when at some level the last rule that
says something of it grants it, and at no higher level the last such rule denies it. Neither the
rules of other roles matter, nor how the rules of different levels are mixed. -/
theorem effectivePermissions_iff (rules : List Entries) (h : AreFlat rules) :
    ∃ perms, effectivePermissions (.list (rules.map .record)) = .ok perms ∧
      (∀ role : String, (perms.get? (.text role)).isSome = true ↔
        role ≠ "" ∧ ∃ rule ∈ rules, Entries.get rule "role" = .text role) ∧
      (∀ (role : String) (c : Capability),
        (∃ grants, perms.get? (.text role) = some grants ∧ grants c = true) ↔
          role ≠ "" ∧ ∃ level, SaysLast rules role level c true ∧
            ∀ higher, level < higher → ¬SaysLast rules role higher c false) ∧
      ∀ rules', AreFlat rules' → ∀ role : String,
        (∀ level, rulesAt rules' role level = rulesAt rules role level) →
        ∀ perms', effectivePermissions (.list (rules'.map .record)) = .ok perms' →
          perms'.get? (.text role) = perms.get? (.text role) := by
  obtain ⟨perms, hperms, hget⟩ := exists_effectivePermissions h
  refine ⟨perms, hperms, fun role => ?_, fun role c => ?_, fun rules' h' role hrules => ?_⟩
  · have hrules : rulesOf rules role ≠ [] ↔
        ∃ rule ∈ rules, Entries.get rule "role" = .text role := by
      rw [← List.length_pos_iff_ne_nil, List.length_pos_iff_exists_mem]
      simp only [mem_rulesOf]
    rw [hget, ← hrules, ne_eq, ne_eq, ← not_or]
    split
    · rename_i hnone
      exact iff_of_false (by simp) (not_not.2 hnone)
    · rename_i hsome
      exact iff_of_true rfl hsome
  · have hgranted : granted ((rulesOf rules role).map readRule) c = true ↔ ∃ level,
        SaysLast rules role level c true ∧
          ∀ higher, level < higher → ¬SaysLast rules role higher c false := by
      simp only [granted_iff, ne_eq, said_rulesOf_eq_some_iff]
    rw [hget, ← hgranted]
    by_cases hrole : role = ""
    · simp [hrole]
    · by_cases hnil : rulesOf rules role = []
      · -- Without rules nothing is granted.
        rw [if_pos (.inr hnil), hnil]
        simp [granted, levelsSaying, levels]
      · rw [if_neg (not_or.2 ⟨hrole, hnil⟩)]
        simp [hrole]
  -- The entry of a role is read off its own rules, level by level.
  · intro perms' hperms'
    obtain ⟨perms'', hperms'', hget'⟩ := exists_effectivePermissions h'
    obtain rfl : perms'' = perms' := Except.ok.inj (hperms''.symm.trans hperms')
    have hnil : rulesOf rules' role = [] ↔ rulesOf rules role = [] := by
      rw [rulesOf_eq_nil_iff, rulesOf_eq_nil_iff]
      simp only [hrules]
    rw [hget, hget', granted_congr hrules]
    simp only [hnil]

/-- The rules of a clerk, who may write at the lowest level alone, and those of a guest. -/
def clerkRules : List Entries :=
  [[("role", .text "Clerk"), ("read", .int 1), ("write", .int 1)],
    [("role", .text "Guest"), ("read", .int 0)],
    [("role", .text "Clerk"), ("permlevel", .text "1"), ("write", .int 0)]]

/-- The clerk may read, and may not write. -/
theorem effectivePermissions_iff_clerk :
    ∃ perms, effectivePermissions (.list (clerkRules.map .record)) = .ok perms ∧
      (∃ grants, perms.get? (.text "Clerk") = some grants ∧ grants .read = true) ∧
      ¬∃ grants, perms.get? (.text "Clerk") = some grants ∧ grants .write = true := by
  have hflat : AreFlat clerkRules := by
    simp [AreFlat, clerkRules, HasTextRole, Value.IsEndless, Entries.get, Entries.get?]
  have hanswer : ∀ (c : Capability) (answer : Bool) (level : Int),
      SaysLast clerkRules "Clerk" level c answer ↔
        level ∈ levelsSaying ((rulesOf clerkRules "Clerk").map readRule) c answer := by
    intro c answer level
    rw [← said_rulesOf_eq_some_iff, mem_levelsSaying]
  have hread : levelsSaying ((rulesOf clerkRules "Clerk").map readRule) .read true = [0] ∧
      levelsSaying ((rulesOf clerkRules "Clerk").map readRule) .read false = [] := by
    decide +kernel
  have hwrite : levelsSaying ((rulesOf clerkRules "Clerk").map readRule) .write true = [0] ∧
      levelsSaying ((rulesOf clerkRules "Clerk").map readRule) .write false = [1] := by
    decide +kernel
  obtain ⟨perms, hperms, -, hgrants, -⟩ := effectivePermissions_iff clerkRules hflat
  refine ⟨perms, hperms, ?_, ?_⟩
  · rw [hgrants]
    simp [hanswer, hread]
  · rw [hgrants]
    simp [hanswer, hwrite]

/-- **A rule of a role without a name gives nothing**, though it is the only one and grants
something. -/
theorem not_effectivePermissions_unnamed :
    ∃ perms, effectivePermissions (.list [.record [("role", .text ""), ("read", .int 1)]]) =
        .ok perms ∧ perms.get? (.text "") = none ∧
      SaysLast [[("role", .text ""), ("read", .int 1)]] "" 0 .read true ∧
      ∀ higher, 0 < higher →
        ¬SaysLast [[("role", .text ""), ("read", .int 1)]] "" higher .read false := by
  have hflat : AreFlat [[("role", .text ""), ("read", .int 1)]] := by
    simp [AreFlat, HasTextRole, Value.IsEndless, Entries.get, Entries.get?]
  obtain ⟨perms, hperms, hget⟩ := exists_effectivePermissions hflat
  refine ⟨perms, hperms, by rw [hget, if_pos (.inl rfl)], ?_, fun higher _ => ?_⟩
  · rw [← said_rulesOf_eq_some_iff]
    decide +kernel
  · have hnone : levelsSaying ((rulesOf [[("role", .text ""), ("read", .int 1)]] "").map readRule)
        .read false = [] := by decide +kernel
    rw [← said_rulesOf_eq_some_iff, ← mem_levelsSaying, hnone]
    exact List.not_mem_nil

end FormScaffold
