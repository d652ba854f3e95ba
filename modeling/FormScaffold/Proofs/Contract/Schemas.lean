import FormScaffold.Metadata.Memory
import FormScaffold.Proofs.Contract.Plain

/-! # Plain schemas

When the fields of every schema have different names, a source that holds the schemas is plain.

* `AreNames.put` — what is put under a text keeps the keys different;
* **`Schema.IsPlain`** — the names in a schema are texts, and no two fields share one;
* **`isPlain_ofSchemas`** — a source that holds plain schemas is plain. -/

namespace FormScaffold

open Json

/-! ## Rules by role -/

/-- A text is the same as itself. -/
theorem same_self (s : String) : (Value.text s).same (.text s) = true := by
  simp [Value.same]

/-- Texts are the same just when they are equal. -/
theorem same_text_iff {s t : String} : (Value.text s).same (.text t) = true ↔ s = t := by
  refine ⟨fun h => Value.text.inj (same_text h), ?_⟩
  rintro rfl
  exact same_self s

/-- A thing that is put under a key that is there leaves the keys. -/
theorem Keyed.keys_put_of_mem {α : Type} {m : Keyed α} {s : String} (h : .text s ∈ m.keys) (a : α) :
    (m.put (.text s) a).keys = m.keys := by
  induction m with
  | nil => simp [keys] at h
  | cons p m ih =>
    obtain ⟨k, old⟩ := p
    rw [put]
    split
    · rfl
    · rename_i hsame
      rcases List.mem_cons.1 h with rfl | hmem
      · exact absurd (same_self s) hsame
      · exact congrArg (k :: ·) (ih hmem)

/-- What is put under a text keeps the keys different. -/
theorem AreNames.put {α : Type} {m : Keyed α} (h : AreNames m.keys) (s : String) (a : α) :
    AreNames (m.put (.text s) a).keys := by
  by_cases hmem : .text s ∈ m.keys
  · rwa [Keyed.keys_put_of_mem hmem]
  · have hkeys : (m.put (.text s) a).keys = m.keys.concat (.text s) := by
      rw [Keyed.put_of_not_mem ⟨s, rfl⟩ hmem, Keyed.keys, List.map_append, List.concat_eq_append]
      rfl
    rw [hkeys]
    refine ⟨fun v hv => ?_, h.nodup.concat hmem⟩
    rw [List.concat_eq_append, List.mem_append, List.mem_singleton] at hv
    exact hv.elim (h.text v) fun hv => ⟨s, hv⟩

/-- The rule has no role, or a text. -/
def HasTextRole (v : Value) : Prop :=
  ∀ rule, v.entries = .ok rule → (rule.get "role").truthy = true → ∃ s, rule.get "role" = .text s

/-- What grouping does with one more rule. -/
def groupRule (grouped : Keyed (List Entries)) (v : Value) :
    Except Fault (Keyed (List Entries)) := do
  let rule ← v.entries
  let role := rule.get "role"
  if role.truthy then return addRule grouped (← role.key) rule else return grouped

/-- One more rule is put among those that were grouped before it. -/
theorem groupRules_concat_eq_ok {vs : List Value} {v : Value} {grouped : Keyed (List Entries)} :
    groupRules (vs ++ [v]) = .ok grouped ↔
      ∃ made, groupRules vs = .ok made ∧ groupRule made v = .ok grouped := by
  rw [groupRules, List.foldlM_append, bind_eq_ok]
  refine exists_congr fun made => and_congr_right fun _ => ?_
  show groupRule made v >>= pure = _ ↔ _
  rw [bind_pure]

/-- One more rule is added to those of its role, or left out when it has none. -/
theorem groupRule_cases {v : Value} (h : HasTextRole v) {made grouped : Keyed (List Entries)}
    (hgrouped : groupRule made v = .ok grouped) : ∃ rule, v.entries = .ok rule ∧
      ((rule.get "role").truthy = false ∧ grouped = made ∨
        ∃ s, s ≠ "" ∧ rule.get "role" = .text s ∧ grouped = addRule made (.text s) rule) := by
  obtain ⟨rule, hrule, hgrouped⟩ := bind_eq_ok.1 hgrouped
  refine ⟨rule, hrule, ?_⟩
  simp only at hgrouped
  split at hgrouped
  · rename_i htruthy
    obtain ⟨s, hs⟩ := h rule hrule htruthy
    rw [hs] at hgrouped htruthy
    exact .inr ⟨s, by simpa [Value.truthy] using htruthy, hs, (Except.ok.inj hgrouped).symm⟩
  · rename_i hfalse
    exact .inl ⟨by simpa using hfalse, (Except.ok.inj hgrouped).symm⟩

/-- Rules with texts for roles are grouped under names. -/
theorem areNames_groupRules {vs : List Value} (h : ∀ v ∈ vs, HasTextRole v)
    {grouped : Keyed (List Entries)} (hgrouped : groupRules vs = .ok grouped) :
    AreNames grouped.keys := by
  induction vs using List.reverseRecOn generalizing grouped with
  | nil =>
    obtain rfl : [] = grouped := Except.ok.inj hgrouped
    exact ⟨by simp [Keyed.keys], List.nodup_nil⟩
  | append_singleton vs v ih =>
    obtain ⟨made, hmade, hlast⟩ := groupRules_concat_eq_ok.1 hgrouped
    have hnames := ih (fun w hw => h w (List.mem_append_left _ hw)) hmade
    obtain ⟨rule, -, ⟨-, rfl⟩ | ⟨s, -, -, rfl⟩⟩ :=
      groupRule_cases (h v (List.mem_append_right _ List.mem_cons_self)) hlast
    · exact hnames
    · exact hnames.put s _

/-! ## Schemas -/

/-- **The names in a schema are texts, and no two of its fields share one.** -/
structure Schema.IsPlain (schema : Value) : Prop where
  names : ∀ v rows, Schema.fetch schema .fieldList = .ok v → rawRows v = .ok rows →
    AreNames (namesOf rows)
  roles : ∀ v rules, Schema.fetch schema .permissions = .ok v → v.elementsOrNone = .ok rules →
    ∀ rule ∈ rules, HasTextRole rule

/-- The first of two well-formed values that counts is well-formed. -/
theorem isWellFormed_orElse {v other : Value} (hv : IsWellFormed v) (h : IsWellFormed other) :
    IsWellFormed (v.orElse other) := by
  unfold Value.orElse
  split <;> assumption

/-- What is fetched from a well-formed schema is well-formed. -/
theorem isWellFormed_of_fetch {schema : Value} (h : IsWellFormed schema) {part : Part} {v : Value}
    (hv : Schema.fetch schema part = .ok v) : IsWellFormed v := by
  obtain ⟨es, hes, hv⟩ := bind_eq_ok.1 hv
  have hget := isWellFormed_get (isWellFormed_entries h hes)
  have hnone : IsWellFormed (.list []) := by simp
  rw [← Except.ok.inj hv]
  cases part with
  | fieldList => exact isWellFormed_orElse (hget _) hnone
  | overrides => exact isWellFormed_orElse (isWellFormed_orElse (hget _) (hget _)) hnone
  | clientBehavior => exact isWellFormed_orElse (hget _) hnone
  | workflow => exact isWellFormed_orElse (hget _) trivial
  | permissions => exact isWellFormed_orElse (hget _) hnone

/-- A schema that is found is one of the schemas. -/
theorem exists_of_findSchema {es : Entries} {entity : String} {schema : Value}
    (h : findSchema (.record es) entity = .ok schema) : ∃ e ∈ es, e.2 = schema := by
  have hentries : ((Value.record es).orElse (.record [])).entries = .ok es := by
    cases es <;> rfl
  obtain ⟨es', hes, h⟩ := bind_eq_ok.1 h
  obtain rfl : es = es' := Except.ok.inj (hentries.symm.trans (mapError_eq_ok.1 hes))
  split at h
  · exact absurd h (by simp)
  · rename_i hnull
    have hget := Except.ok.inj h
    rw [Entries.get, Entries.get?] at hget hnull
    cases hfind : es.find? (·.1 == entity) with
    | none => exact absurd (by rw [hfind]; rfl) hnull
    | some e =>
      rw [hfind] at hget
      exact ⟨e, List.mem_of_find?_eq_some hfind, hget⟩

/-- **A source that holds plain schemas is plain.** The schemas are held in memory as they were
given, so that what is fetched from them is a part of them. -/
theorem isPlain_ofSchemas {es : Entries} (h : IsWellFormed (.record es))
    (hplain : ∀ e ∈ es, Schema.IsPlain e.2) : (Source.ofSchemas (.record es)).IsPlain where
  wellFormed part entity v hv := by
    obtain ⟨schema, hschema, hv⟩ := bind_eq_ok.1 hv
    obtain ⟨e, he, rfl⟩ := exists_of_findSchema hschema
    exact isWellFormed_of_fetch ((isWellFormed_record.1 h).2 e he) (mapError_eq_ok.1 hv)
  names entity v rows hv hrows := by
    obtain ⟨schema, hschema, hv⟩ := bind_eq_ok.1 hv
    obtain ⟨e, he, rfl⟩ := exists_of_findSchema hschema
    exact (hplain e he).names v rows (mapError_eq_ok.1 hv) hrows
  roles entity grouped hgrouped := by
    obtain ⟨schema, hschema, hgrouped⟩ := bind_eq_ok.1 hgrouped
    obtain ⟨e, he, rfl⟩ := exists_of_findSchema hschema
    obtain ⟨v, hv, hgrouped⟩ := bind_eq_ok.1 (mapError_eq_ok.1 hgrouped)
    obtain ⟨rules, hrules, hgrouped⟩ := bind_eq_ok.1 hgrouped
    have hroles := (hplain e he).roles v rules hv hrules
    exact (areNames_groupRules hroles hgrouped).sublist List.filter_sublist

end FormScaffold
