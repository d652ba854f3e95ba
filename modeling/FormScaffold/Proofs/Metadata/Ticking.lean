import FormScaffold.Metadata.Customization
import FormScaffold.Proofs.Contract.Granted
import FormScaffold.Proofs.Contract.Textual

/-! # Ticked boxes

A permission row has a box for each capability, and the rule that is made from it keeps the boxes
that count as true. Such a rule grants or says nothing, so that the levels of the rules do not
matter: a role may do what some row of it has a box for that counts as true. A box is ticked when it
reads as yes. Ticked boxes count as true, and so does a text that reads as no and is not empty.

* `get_ruleOfRow` — a box that counts as true makes a grant, any other makes nothing;
* **`Permission.granted_iff_of_silent`** — rules that deny nothing grant what one of them grants;
* **`permissionsOfRows_iff`** — what rows give each role, and when this is what is ticked. -/

namespace FormScaffold

open Permission

/-! ## Boxes -/

/-- The box of a capability is ticked. -/
def IsTicked (row : Entries) (c : Capability) : Prop := (row.get c.word).flag = true

/-- **The box of a capability is misread**: it holds a text that is not empty and no word for yes,
such as `0`. -/
def IsMisread (row : Entries) (c : Capability) : Prop :=
  ∃ s, row.get c.word = .text s ∧ s ≠ "" ∧ Value.isYes s = false

instance (row : Entries) (c : Capability) : Decidable (IsTicked row c) :=
  inferInstanceAs (Decidable (_ = true))

/-- What reads as yes counts as true. -/
theorem truthy_of_flag {v : Value} (h : v.flag = true) : v.truthy = true := by
  cases v with
  | text s =>
    -- The empty text is no word for yes.
    have hne : s ≠ "" := by
      rintro rfl
      exact absurd h (by decide +kernel)
    simpa [Value.truthy] using hne
  | _ => exact h

/-- **A box counts as true when it is ticked or misread.** A text that is not empty counts as true,
though it may be a word for no. -/
theorem truthy_iff_isTicked {row : Entries} {c : Capability} :
    (row.get c.word).truthy = true ↔ IsTicked row c ∨ IsMisread row c := by
  unfold IsTicked IsMisread
  constructor
  · intro htruthy
    cases hbox : row.get c.word with
    | text s =>
      rw [hbox] at htruthy
      cases hyes : Value.isYes s with
      | true => exact .inl hyes
      | false => exact .inr ⟨s, rfl, by simpa [Value.truthy] using htruthy, hyes⟩
    | _ =>
      -- All but texts read as they count.
      rw [hbox] at htruthy
      exact .inl htruthy
  · rintro (hticked | ⟨s, hs, hne, -⟩)
    · exact truthy_of_flag hticked
    · rw [hs]
      simpa [Value.truthy] using hne

/-! ## Rules of rows -/

/-- **A row whose role is a text, if it has one**, and whose level is a whole number or writes
one. -/
structure IsPermissionRow (row : Entries) : Prop where
  role : (row.get "role").IsTextual
  level : ∃ n, ((row.get "permlevel").orElse (.int 0)).toInt = .ok n

/-- The rule of a row at a level. -/
def ruleOfRow (row : Entries) (level : Int) : Entries :=
  [("role", row.get "role"), ("permlevel", .int level)] ++
    (if (row.get "if_owner").truthy then [("if_owner", .int 1)] else []) ++
    (Capability.all.filter fun c => (row.get c.word).truthy).map fun c => (c.word, .int 1)

/-- What stands in the first entries counts before what stands in the others. -/
theorem Entries.get?_append (es fs : Entries) (key : String) :
    Entries.get? (es ++ fs) key = (Entries.get? es key).or (Entries.get? fs key) := by
  rw [Entries.get?, List.find?_append, Option.map_or]
  rfl

/-- No two capabilities have one word. -/
theorem Capability.word_inj {c d : Capability} : c.word = d.word ↔ c = d := by
  cases c <;> cases d <;> decide

/-- Under the word of a capability stands a grant when the capability is among the listed ones. -/
theorem get?_map_word (cs : List Capability) (c : Capability) :
    Entries.get? (cs.map fun d => (d.word, Value.int 1)) c.word =
      if c ∈ cs then some (.int 1) else none := by
  induction cs with
  | nil => rfl
  | cons d cs ih =>
    rw [List.map_cons, Entries.get?_cons, ih]
    by_cases hsame : d = c
    · simp [hsame]
    · have hword : (d.word == c.word) = false := by
        simpa [Capability.word_inj] using hsame
      simp [hword, Ne.symm hsame]

section Rule

variable (row : Entries) (level : Int)

/-- The rule of a row is about the role of the row. -/
theorem get_role_ruleOfRow : (ruleOfRow row level).get "role" = row.get "role" := rfl

/-- The rule of a row stands at the level that it was made for. -/
theorem get_level_ruleOfRow : (ruleOfRow row level).get "permlevel" = .int level := rfl

/-- **A box that counts as true makes a grant**, and any other box makes nothing. In the rule a
capability has the number one, or is not mentioned. -/
theorem get_ruleOfRow (c : Capability) :
    (ruleOfRow row level).get c.word =
      if (row.get c.word).truthy then .int 1 else .null := by
  have hfront : Entries.get? ([("role", row.get "role"), ("permlevel", .int level)] ++
      if (row.get "if_owner").truthy then [("if_owner", .int 1)] else []) c.word = none := by
    split <;> cases c <;> rfl
  rw [Entries.get, ruleOfRow, Entries.get?_append, hfront, get?_map_word]
  simp only [List.mem_filter, Capability.mem_all, true_and]
  split <;> rfl

end Rule

/-- A row gives its rule at the level that it has or writes. -/
theorem exists_ruleOfPermissionRow {row : Entries} (h : IsPermissionRow row) :
    ∃ level, ruleOfPermissionRow (.record row) = .ok (ruleOfRow row level) := by
  obtain ⟨level, hlevel⟩ := h.level
  exact ⟨level, bind_eq_ok.2 ⟨row, rfl, bind_eq_ok.2 ⟨level, hlevel, rfl⟩⟩⟩

/-! ## Rules that deny nothing -/

namespace Permission

/-- **Rules that deny nothing grant what one of them grants**, whatever their levels are. -/
theorem granted_iff_of_silent {rules : List Rule} {c : Capability}
    (h : ∀ rule ∈ rules, rule.verdict c ≠ some false) :
    granted rules c = true ↔ ∃ rule ∈ rules, rule.verdict c = some true := by
  have hsaid : ∀ {level answer}, said rules level c = some answer →
      ∃ rule ∈ rules, rule.verdict c = some answer := by
    intro level answer hsaid
    obtain ⟨rule, hrule, hverdict⟩ := List.mem_filterMap.1 (List.mem_of_getLast? hsaid)
    exact ⟨rule, List.mem_of_mem_filter hrule, hverdict⟩
  have hnone : ∀ level, said rules level c ≠ some false := by
    intro level hfalse
    obtain ⟨rule, hrule, hverdict⟩ := hsaid hfalse
    exact h rule hrule hverdict
  rw [granted_iff]
  constructor
  · rintro ⟨level, htrue, -⟩
    exact hsaid htrue
  · rintro ⟨rule, hrule, hverdict⟩
    refine ⟨rule.level, ?_, fun higher _ => hnone higher⟩
    -- Something is said at the level of the rule, and it is no denial.
    have hmem : true ∈ (rules.filter (·.level == rule.level)).filterMap (·.verdict c) :=
      List.mem_filterMap.2 ⟨rule, List.mem_filter.2 ⟨hrule, beq_self_eq_true _⟩, hverdict⟩
    cases hlast : said rules rule.level c with
    | none =>
      rw [said, List.getLast?_eq_none_iff] at hlast
      rw [hlast] at hmem
      exact absurd hmem List.not_mem_nil
    | some answer =>
      cases answer with
      | true => rfl
      | false => exact absurd hlast (hnone rule.level)

end Permission

/-- The rule of a row denies nothing, and grants what has a box that counts as true. -/
theorem verdict_ruleOfRow (row : Entries) (level : Int) (c : Capability) :
    (readRule (ruleOfRow row level)).verdict c =
      if (row.get c.word).truthy then some true else none := by
  have hget := get_ruleOfRow row level c
  unfold Rule.verdict readRule
  simp only [hget]
  cases (row.get c.word).truthy <;> rfl

/-! ## Permissions -/

/-- What permission rows give each role. -/
def permissionsOfRows (rows : List Entries) : Except Fault (Keyed Grants) := do
  let rules ← (rows.map Value.record).mapM ruleOfPermissionRow
  effectivePermissions (.list (rules.map .record))

/-- The role may do it. -/
def May (perms : Keyed Grants) (role : String) (c : Capability) : Prop :=
  ∃ grants, perms.get? (.text role) = some grants ∧ grants c = true

/-- The rules are those of the rows, each at some level. -/
def AreRulesOf (rows rules : List Entries) : Prop :=
  List.Forall₂ (fun row rule => ∃ level, rule = ruleOfRow row level) rows rules

/-- Permission rows always give rules, one for each row. -/
theorem exists_areRulesOf {rows : List Entries} (h : ∀ row ∈ rows, IsPermissionRow row) :
    ∃ rules, (rows.map Value.record).mapM ruleOfPermissionRow = .ok rules ∧
      AreRulesOf rows rules := by
  have hall : ∀ v ∈ rows.map Value.record, ∃ rule, ruleOfPermissionRow v = .ok rule := by
    intro v hv
    obtain ⟨row, hrow, rfl⟩ := List.mem_map.1 hv
    obtain ⟨level, hrule⟩ := exists_ruleOfPermissionRow (h row hrow)
    exact ⟨_, hrule⟩
  obtain ⟨rules, hrules⟩ := exists_mapM_eq_ok hall
  refine ⟨rules, hrules, (List.forall₂_map_left_iff.1 (mapM_eq_ok.1 hrules)).imp ?_⟩
  intro row rule hrule
  obtain ⟨es, hes, hrule⟩ := bind_eq_ok.1 hrule
  obtain rfl : row = es := Except.ok.inj hes
  obtain ⟨level, -, hrule⟩ := bind_eq_ok.1 hrule
  exact ⟨level, (Except.ok.inj hrule).symm⟩

section Rules

variable {rows rules : List Entries} (hrules : AreRulesOf rows rules)

include hrules

/-- The rules have roles and levels as rules of a flat list have. -/
theorem areFlat_of_rows (h : ∀ row ∈ rows, IsPermissionRow row) : AreFlat rules := by
  intro rule hrule
  obtain ⟨row, hrow, level, rfl⟩ := exists_of_mem_forall₂ hrules hrule
  refine ⟨?_, ?_⟩
  · rintro es hes htruthy
    obtain rfl : ruleOfRow row level = es := Except.ok.inj hes
    rw [get_role_ruleOfRow] at htruthy ⊢
    rcases (h row hrow).role with hnull | htext
    · rw [hnull] at htruthy
      exact absurd htruthy Bool.false_ne_true
    · exact htext
  · rw [get_level_ruleOfRow]
    simp [Value.IsEndless]

/-- The rules of a role grant what some row of it has a box for that counts as true. -/
theorem granted_rulesOf_iff (role : String) (c : Capability) :
    granted ((rulesOf rules role).map readRule) c = true ↔
      ∃ row ∈ rows, row.get "role" = .text role ∧ (row.get c.word).truthy = true := by
  have hverdict : ∀ rule ∈ (rulesOf rules role).map readRule, ∃ row ∈ rows,
      row.get "role" = .text role ∧
        rule.verdict c = if (row.get c.word).truthy then some true else none := by
    intro rule hrule
    obtain ⟨es, hes, rfl⟩ := List.mem_map.1 hrule
    obtain ⟨hmem, hrole⟩ := mem_rulesOf.1 hes
    obtain ⟨row, hrow, level, rfl⟩ := exists_of_mem_forall₂ hrules hmem
    exact ⟨row, hrow, get_role_ruleOfRow row level ▸ hrole, verdict_ruleOfRow row level c⟩
  -- A row that is not ticked says nothing, so that no rule forbids what another one grants.
  have hsilent : ∀ rule ∈ (rulesOf rules role).map readRule, rule.verdict c ≠ some false := by
    intro rule hrule
    obtain ⟨row, -, -, heq⟩ := hverdict rule hrule
    rw [heq]
    split <;> simp
  rw [granted_iff_of_silent hsilent]
  constructor
  · rintro ⟨rule, hrule, htrue⟩
    obtain ⟨row, hrow, hrole, heq⟩ := hverdict rule hrule
    refine ⟨row, hrow, hrole, ?_⟩
    by_contra hfalse
    rw [heq, if_neg hfalse] at htrue
    exact absurd htrue (by simp)
  · rintro ⟨row, hrow, hrole, htruthy⟩
    obtain ⟨rule, hrule, level, rfl⟩ := exists_of_mem_forall₂ hrules.flip hrow
    refine ⟨_, List.mem_map_of_mem (mem_rulesOf.2 ⟨hrule, hrole⟩), ?_⟩
    rw [verdict_ruleOfRow, if_pos htruthy]

end Rules

/-- **What rows give a role** is what some row of it has a box for that counts as true. The rules
that rows give never deny anything, so that levels do not matter. -/
theorem exists_permissionsOfRows {rows : List Entries} (h : ∀ row ∈ rows, IsPermissionRow row) :
    ∃ perms, permissionsOfRows rows = .ok perms ∧ ∀ role c, May perms role c ↔
      role ≠ "" ∧ ∃ row ∈ rows, row.get "role" = .text role ∧ (row.get c.word).truthy = true := by
  obtain ⟨rules, hmade, hrules⟩ := exists_areRulesOf h
  obtain ⟨perms, hperms, hget⟩ := exists_effectivePermissions (areFlat_of_rows hrules h)
  refine ⟨perms, bind_eq_ok.2 ⟨rules, hmade, hperms⟩, fun role c => ?_⟩
  rw [May, hget, ← granted_rulesOf_iff hrules]
  by_cases hrole : role = ""
  · simp [hrole]
  · by_cases hnil : rulesOf rules role = []
    · -- Without rules nothing is granted.
      rw [if_pos (.inr hnil), hnil]
      simp [granted, levelsSaying, levels]
    · rw [if_neg (not_or.2 ⟨hrole, hnil⟩)]
      simp [hrole]

/-- **Permission rows give what their boxes grant.** Rows whose roles are texts and whose levels are
whole numbers or write some always give permissions. A role with a name may do what some row of it
has a box for that counts as true, at whatever level; other boxes and the rows of other roles do not
matter. So a role may do just what is ticked for it, unless a row of it has a misread box for
something that no row of it has ticked. -/
theorem permissionsOfRows_iff {rows : List Entries} (h : ∀ row ∈ rows, IsPermissionRow row) :
    ∃ perms, permissionsOfRows rows = .ok perms ∧
      (∀ role c, May perms role c ↔ role ≠ "" ∧
        ∃ row ∈ rows, row.get "role" = .text role ∧ (IsTicked row c ∨ IsMisread row c)) ∧
      ∀ role c, role ≠ "" →
        ((May perms role c ↔ ∃ row ∈ rows, row.get "role" = .text role ∧ IsTicked row c) ↔
          ∀ row ∈ rows, row.get "role" = .text role → IsMisread row c →
            ∃ other ∈ rows, other.get "role" = .text role ∧ IsTicked other c) := by
  obtain ⟨perms, hperms, hmay⟩ := exists_permissionsOfRows h
  simp only [truthy_iff_isTicked] at hmay
  refine ⟨perms, hperms, hmay, fun role c hrole => ?_⟩
  rw [hmay]
  constructor
  · intro hticked row hrow hof hmisread
    exact hticked.1 ⟨hrole, row, hrow, hof, .inr hmisread⟩
  · intro hmisread
    constructor
    · rintro ⟨-, row, hrow, hof, hticked | hread⟩
      · exact ⟨row, hrow, hof, hticked⟩
      · exact hmisread row hrow hof hread
    · rintro ⟨row, hrow, hof, hticked⟩
      exact ⟨hrole, row, hrow, hof, .inl hticked⟩

/-- The first row of a clerk. Its second box holds a text for no. -/
def clerkRow : Entries :=
  [("role", .text "Clerk"), ("permlevel", .text "0"), ("read", .text "1"), ("write", .text "0")]

/-- A row of a guest, who may do nothing. -/
def guestRow : Entries := [("role", .text "Guest"), ("read", .bool false), ("delete", .null)]

/-- The second row of the clerk, at a level above. -/
def upperRow : Entries :=
  [("role", .text "Clerk"), ("permlevel", .int 1), ("read", .int 0), ("delete", .int 1)]

/-- The clerk may read and delete, as ticked at two levels, and may write though nothing is
ticked. -/
theorem permissionsOfRows_iff_clerk :
    ∃ perms, permissionsOfRows [clerkRow, guestRow, upperRow] = .ok perms ∧
      May perms "Clerk" .read ∧ May perms "Clerk" .delete ∧ ¬May perms "Guest" .read ∧
      May perms "Clerk" .write ∧ ¬IsTicked clerkRow .write ∧ ¬IsTicked upperRow .write := by
  have h : ∀ row ∈ [clerkRow, guestRow, upperRow], IsPermissionRow row := by
    have hclerk : IsPermissionRow clerkRow := ⟨.inr ⟨_, rfl⟩, 0, rfl⟩
    have hguest : IsPermissionRow guestRow := ⟨.inr ⟨_, rfl⟩, 0, rfl⟩
    have hupper : IsPermissionRow upperRow := ⟨.inr ⟨_, rfl⟩, 1, rfl⟩
    simp [hclerk, hguest, hupper]
  obtain ⟨perms, hperms, hmay, -⟩ := permissionsOfRows_iff h
  have hread : IsTicked clerkRow .read := by decide +kernel
  have hdelete : IsTicked upperRow .delete := by decide +kernel
  have hwrite : IsMisread clerkRow .write := ⟨"0", rfl, by decide, by decide +kernel⟩
  refine ⟨perms, hperms, ?_, ?_, ?_, ?_, by decide +kernel, by decide +kernel⟩
  · exact (hmay _ _).2 ⟨by decide, clerkRow, by simp, rfl, .inl hread⟩
  · exact (hmay _ _).2 ⟨by decide, upperRow, by simp, rfl, .inl hdelete⟩
  · intro hguest
    obtain ⟨-, row, hrow, hrole, hbox⟩ := (hmay _ _).1 hguest
    simp only [List.mem_cons, List.not_mem_nil, or_false] at hrow
    rcases hrow with rfl | rfl | rfl
    · exact absurd (Value.text.inj hrole) (by decide)
    · exact absurd (truthy_iff_isTicked.2 hbox) (by decide)
    · exact absurd (Value.text.inj hrole) (by decide)
  · exact (hmay _ _).2 ⟨by decide, clerkRow, by simp, rfl, .inr hwrite⟩

end FormScaffold
