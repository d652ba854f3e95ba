import FormScaffold.Proofs.Traversal
import FormScaffold.Proofs.View.Declaring
import FormScaffold.Proofs.View.Roles

/-! # Permissions in generated code

What the declarations of permissions hold after both passes, read as JSON.

* **`pass_writeEntries`** — a pass over permissions leaves all but their roles;
* **`IsKept`** — a role in which no pass finds anything;
* **`declared?_permissions_iff`** — the permissions are read back if and only if all roles are
  kept. -/

namespace FormScaffold.View

open Text Json

/-- Roles with what they are allowed to do, as entries of a record. -/
def grantEntries (perms : List (String × Grants)) : Entries := perms.map fun p => (p.1, p.2.toValue)

/-- The entries of permissions, role by role. -/
theorem grantEntries_cons (role : String) (g : Grants) (perms : List (String × Grants)) :
    grantEntries ((role, g) :: perms) = (role, g.toValue) :: grantEntries perms := rfl

/-- The roles of permissions by the names they have in JSON. -/
def namedGrants (m : Keyed Grants) : List (String × Grants) := m.map fun p => (keyText p.1, p.2)

/-- The permissions of a contract as a record under the names of its roles. -/
theorem toValue_grants (m : Keyed Grants) :
    m.toValue Grants.toValue = .record (grantEntries (namedGrants m)) := by
  rw [grantEntries, namedGrants, List.map_map]
  rfl

/-- How permissions are laid out. -/
abbrev blockStyle : Style := ⟨.lineSafe, true⟩

/-! ## Text around roles -/

instance (cs : List Char) : Decidable (IsQuiet cs) :=
  inferInstanceAs (Decidable (∀ c ∈ cs, c ≠ '#' ∧ c ≠ '='))

/-- Quiet texts one behind the other are quiet. -/
theorem IsQuiet.append {as bs : List Char} (ha : IsQuiet as) (hb : IsQuiet bs) :
    IsQuiet (as ++ bs) := by
  intro c hc
  rcases List.mem_append.1 hc with hc | hc
  · exact ha c hc
  · exact hb c hc

/-- The start of a line is quiet. -/
theorem isQuiet_lineStart (level : Nat) : IsQuiet (lineStart level) := by
  intro c hc
  rcases List.mem_cons.1 hc with rfl | hc
  · decide
  · rw [List.eq_of_mem_replicate hc]
    decide

/-- What stands before an entry is quiet. -/
theorem isQuiet_before (level : Nat) (isFirst : Bool) :
    IsQuiet (if isFirst then blockStyle.opening level else blockStyle.between level) := by
  cases isFirst with
  | true => exact isQuiet_lineStart level
  | false => exact IsQuiet.append (show IsQuiet [','] by decide) (isQuiet_lineStart level)

/-- What closes a record is quiet. -/
theorem isQuiet_closing (level : Nat) (isFirst : Bool) :
    IsQuiet (if isFirst then [] else blockStyle.closing level) := by
  cases isFirst with
  | true => exact show IsQuiet [] by decide
  | false => exact isQuiet_lineStart level

/-- What a role is allowed to do is written quietly. -/
theorem isQuiet_writeEntries (g : Grants) (level : Nat) (isFirst : Bool) (cs : List Capability) :
    IsQuiet (writeEntries blockStyle level isFirst (cs.map fun c => (c.word, .bool (g c)))) := by
  have hword : ∀ c : Capability, IsQuiet (Json.textLiteral .lineSafe c.word ++ [':', ' ']) := by
    intro c
    cases c <;> decide
  have hanswer : ∀ b, IsQuiet (write blockStyle (level + 1) (.bool b)) := by
    intro b
    rw [write]
    cases b <;> decide
  induction cs generalizing isFirst with
  | nil => exact isQuiet_closing level isFirst
  | cons c cs ih =>
    have hentry := ((isQuiet_before (level + 1) isFirst).append (hword c)).append
      ((hanswer (g c)).append (ih false))
    rw [List.map_cons, writeEntries]
    simpa only [List.append_assoc, List.cons_append, List.nil_append] using hentry

/-- After the opening bracket of what a role is allowed to do the line ends. -/
theorem exists_write_grants (g : Grants) (level : Nat) :
    ∃ rest, write blockStyle level g.toValue = '\x7b' :: '\n' :: rest ∧ IsQuiet rest := by
  have hquiet : IsQuiet (write blockStyle level g.toValue) := by
    have hopening : IsQuiet ['\x7b'] := by decide
    have hclosing : IsQuiet ['\x7d'] := by decide
    rw [Grants.toValue, write]
    exact (hopening.append (isQuiet_writeEntries g level true Capability.all)).append hclosing
  have hline : ∃ rest, write blockStyle level g.toValue = '\x7b' :: '\n' :: rest := by
    rw [Grants.toValue, write, Capability.all, List.map_cons, writeEntries, if_pos rfl]
    exact ⟨_, rfl⟩
  obtain ⟨rest, hrest⟩ := hline
  exact ⟨rest, hrest, fun c hc => hquiet c (by
    rw [hrest]
    exact List.mem_cons_of_mem _ (List.mem_cons_of_mem _ hc))⟩

/-- Permissions are written between braces, with whatever follows. -/
theorem write_grants_append (perms : List (String × Grants)) (rest : List Char) :
    write blockStyle 0 (.record (grantEntries perms)) ++ rest =
      '\x7b' :: (writeEntries blockStyle 0 true (grantEntries perms) ++ '\x7d' :: rest) := by
  rw [write, List.cons_append, List.cons_append, List.append_assoc]
  rfl

/-- Entries stand quietly up to the literal of the first role, or to the end of the record. -/
theorem opens_writeEntries (perms : List (String × Grants)) (rest : List Char) :
    Opens (writeEntries blockStyle 0 false (grantEntries perms) ++ '\x7d' :: ';' :: rest) := by
  cases perms with
  | nil =>
    have hclosing : IsQuiet ['\x7d'] := by decide
    exact Opens.append (isQuiet_closing 0 false) (Opens.append hclosing (opens_semicolon rest))
  | cons p perms =>
    rw [grantEntries, List.map_cons, writeEntries, List.append_assoc, List.append_assoc,
      List.append_assoc]
    exact Opens.append (isQuiet_before 1 false) (opens_quote _)

/-! ## Passes over permissions -/

/-- A role and what it is allowed to do, as they are written. -/
theorem writeEntries_role {g : Grants} {w : List Char}
    (hw : write blockStyle 1 g.toValue = '\x7b' :: '\n' :: w) (isFirst : Bool) (role : String)
    (es : Entries) (rest : List Char) :
    writeEntries blockStyle 0 isFirst ((role, g.toValue) :: es) ++ rest =
      (if isFirst then blockStyle.opening 1 else blockStyle.between 1) ++
        '"' :: (escaped role.toList ++
          (afterRole ++ (w ++ (writeEntries blockStyle 0 false es ++ rest)))) := by
  rw [writeEntries, hw, Json.textLiteral]
  simp [escaped, afterRole]

/-- **A pass changes nothing between a role and the next one**: no quotes are there but that behind
the role. The capabilities and their truth values are quiet. -/
theorem IsPass.between {pass : List Char → List Char} {Becomes : List Char → List Char → Prop}
    (h : IsPass pass Becomes) {w rest : List Char} (hw : IsQuiet w) (hrest : Opens rest) :
    pass (afterRole ++ (w ++ rest)) = afterRole ++ (w ++ pass rest) := by
  have hopening : IsQuiet [':', ' ', '\x7b', '\n'] := by decide
  have hquiet := h.quiet _ _ (hopening.append hw) hrest
  rw [List.append_assoc, List.append_assoc] at hquiet
  exact (h.quote _).trans (congrArg _ hquiet)

/-- **A pass over the declaration of permissions changes nothing but their roles.** The induction is
on the roles. -/
theorem pass_writeEntries {pass : List Char → List Char} {Becomes : List Char → List Char → Prop}
    (h : IsPass pass Becomes) (isFirst : Bool) (perms : List (String × Grants))
    (rest : List Char) :
    ∃ perms', List.Forall₂ (fun p p' => p'.2 = p.2 ∧ Becomes p.1.toList p'.1.toList) perms perms' ∧
      pass (writeEntries blockStyle 0 isFirst (grantEntries perms) ++ '\x7d' :: ';' :: rest) =
        writeEntries blockStyle 0 isFirst (grantEntries perms') ++
          '\x7d' :: pass (';' :: rest) := by
  induction perms generalizing isFirst with
  | nil =>
    refine ⟨[], .nil, ?_⟩
    have hclosing : IsQuiet ['\x7d'] := by decide
    have hpass := h.quiet _ _ ((isQuiet_closing 0 isFirst).append hclosing)
      (opens_semicolon rest)
    rw [List.append_assoc, List.append_assoc] at hpass
    exact hpass
  | cons p perms ih =>
    obtain ⟨role, g⟩ := p
    obtain ⟨perms', hperms, htail⟩ := ih false
    obtain ⟨w, hw, hquiet⟩ := exists_write_grants g 1
    obtain ⟨role', hrole, hpass⟩ := h.role role.toList
      (w ++ (writeEntries blockStyle 0 false (grantEntries perms) ++ '\x7d' :: ';' :: rest))
    -- The pass changes the first role, leaves what it is allowed to do and goes on with the next.
    have hbetween := h.between hquiet (opens_writeEntries perms rest)
    have hbecomes : Becomes role.toList (String.ofList role').toList := by
      rwa [String.toList_ofList]
    refine ⟨(String.ofList role', g) :: perms', .cons ⟨rfl, hbecomes⟩ hperms, ?_⟩
    rw [grantEntries_cons, grantEntries_cons, writeEntries_role hw, writeEntries_role hw,
      h.quiet _ _ (isQuiet_before 1 isFirst) (opens_quote _), h.quote, String.toList_ofList, hpass,
      hbetween, htail]

/-! ## Reading the permissions -/

/-- **No pass finds anything in the role**: it holds no annotation, and in the typed language its
literal does not hold the head of the permissions. -/
def IsKept (language : Language) (role : String) : Prop :=
  ¬IsAnnotated role.toList ∧ (language = .ts → ¬HasHead role.toList)

/-- The head of the permissions in a language. -/
def headIn : Language → String
  | .js => permissionsHead
  | .ts => typedPermissionsHead

/-- The declaration of the permissions is found behind its head, with or without the type. -/
theorem declaration?_headIn (language : Language) (rest : List Char) :
    declaration? "PERMISSIONS" ((headIn language).toList ++ rest) = some rest := by
  cases language with
  | js =>
    have hhead : permissionsHead.toList = declarationHead "PERMISSIONS" := by decide
    rw [headIn, hhead, declaration?_declarationHead]
  | ts =>
    have hhead : typedPermissionsHead.toList = ("export const " ++ "PERMISSIONS").toList ++
        ':' :: " Record<string, Record<string, boolean>> = ".toList := by decide
    rw [headIn, hhead, List.append_assoc, declaration?, after?_append]
    rfl

/-- A role stays as it is just when it holds no annotation. -/
theorem Settled.eq_iff {role role' : List Char} (h : Settled role role') :
    role' = role ↔ ¬IsAnnotated role := by
  rcases h with ⟨hnone, rfl⟩ | ⟨hsome, hcount⟩
  · exact ⟨fun _ => hnone, fun _ => rfl⟩
  · refine ⟨?_, fun hnone => absurd hsome hnone⟩
    rintro rfl
    exact absurd hcount (lt_irrefl _)

/-- A role stays as it is just when its literal does not hold the head of the permissions. -/
theorem Declared.eq_iff {role role' : List Char} (h : Declared role role') :
    role' = role ↔ ¬HasHead role := by
  rcases h.2 with ⟨hnone, rfl⟩ | ⟨hsome, hlength⟩
  · exact ⟨fun _ => hnone, fun _ => rfl⟩
  · refine ⟨?_, fun hnone => absurd hsome hnone⟩
    rintro rfl
    exact absurd hlength (lt_irrefl _)

/-- After both passes a role is what it was if neither finds anything: the second one never makes up
for the marks that the first one took. -/
theorem Declared.eq_iff_of_settled {role settled role' : List Char} (hd : Declared settled role')
    (hs : Settled role settled) : role' = role ↔ ¬IsAnnotated role ∧ ¬HasHead role := by
  rcases hs with ⟨hnone, rfl⟩ | ⟨hsome, hcount⟩
  · rw [hd.eq_iff, and_iff_right hnone]
  · refine ⟨?_, fun hnone => absurd hsome hnone.1⟩
    rintro rfl
    exact absurd (hd.1.trans_lt hcount) (lt_irrefl _)

/-- What stands behind the permissions, after the semicolon and the end of its line. -/
def lookupTemplate : List Char := canTemplate.toList.drop 2

/-- What is made of it by both passes. -/
def lookupIn : Language → List Char
  | .js => annotate .js lookupTemplate
  | .ts => declare (annotate .ts lookupTemplate)

/-- What is declared after annotations were settled. -/
theorem toList_typed_permissions (language : Language) (m : Keyed Grants) :
    ∃ settled, List.Forall₂ (fun p p' => p'.2 = p.2 ∧ Settled p.1.toList p'.1.toList)
        (namedGrants m) settled ∧
      (typed language (permissionsHead ++ Json.block (m.toValue Grants.toValue) ++
          canTemplate)).toList = permissionsHead.toList ++ '\x7b' ::
        (writeEntries blockStyle 0 true (grantEntries settled) ++
          '\x7d' :: ';' :: '\n' :: annotate language lookupTemplate) := by
  have hcan : canTemplate.toList = ';' :: '\n' :: lookupTemplate := by
    rw [lookupTemplate, canTemplate, String.toList_ofList]
    rfl
  generalize lookupTemplate = left at hcan ⊢
  obtain ⟨settled, hsettled, hannotate⟩ :=
    pass_writeEntries (isPass_annotate language) true (namedGrants m) ('\n' :: left)
  refine ⟨settled, hsettled, ?_⟩
  -- The text around the roles holds no mark of an annotation.
  have hhead : ∀ c ∈ permissionsHead.toList ++ ['\x7b'], c ≠ '#' := by decide
  have hend : ∀ c ∈ [';', '\n'], c ≠ '#' := by decide
  have htail : annotate language (';' :: '\n' :: left) = ';' :: '\n' :: annotate language left :=
    annotate_append language hend left
  have hblock : (Json.block (.record (grantEntries (namedGrants m)))).toList =
      write blockStyle 0 (.record (grantEntries (namedGrants m))) := String.toList_ofList
  rw [typed, String.toList_ofList, String.toList_append, String.toList_append, toValue_grants,
    hblock, hcan, List.append_assoc, write_grants_append, ← List.singleton_append,
    ← List.append_assoc, annotate_append language hhead, hannotate, htail, List.append_assoc]
  rfl

/-- The type is written into the head, and into the roles. -/
theorem declare_permissions (perms : List (String × Grants)) (rest : List Char) :
    ∃ perms', List.Forall₂ (fun p p' => p'.2 = p.2 ∧ Declared p.1.toList p'.1.toList) perms perms' ∧
      declare (permissionsHead.toList ++ '\x7b' :: (writeEntries blockStyle 0 true
          (grantEntries perms) ++ '\x7d' :: ';' :: '\n' :: rest)) =
        typedPermissionsHead.toList ++ '\x7b' :: (writeEntries blockStyle 0 true
          (grantEntries perms') ++ '\x7d' :: ';' :: '\n' :: declare rest) := by
  obtain ⟨perms', hperms, hdeclare⟩ := pass_writeEntries isPass_declare true perms ('\n' :: rest)
  refine ⟨perms', hperms, ?_⟩
  have hcons : ∀ {c : Char} {cs : List Char}, c ≠ 'e' → declare (c :: cs) = c :: declare cs := by
    intro c cs hc
    refine declare_cons fun hprefix => hc ?_
    rw [permissionsHead_eq] at hprefix
    exact (List.cons_prefix_cons.1 hprefix).1.symm
  rw [permissionsHead_eq, typedPermissionsHead_eq, List.cons_append, declare_head,
    hcons (by decide), hdeclare, hcons (by decide), hcons (by decide)]
  rfl

/-- **The declaration of permissions after both passes**: only roles that are not kept have changed.
A role that is kept stands there as its literal, and one that is not has become another one. -/
theorem exists_permissionActions (names : Names) (c : Contract) :
    ∃ perms', List.Forall₂ (fun p p' => p'.2 = p.2 ∧
        (p'.1 = p.1 ↔ IsKept names.language p.1)) (namedGrants c.permissions) perms' ∧
      (permissionActions names c).toList = (headIn names.language).toList ++
        (write blockStyle 0 (.record (grantEntries perms')) ++
          ';' :: '\n' :: lookupIn names.language) := by
  obtain ⟨settled, hsettled, htyped⟩ := toList_typed_permissions names.language c.permissions
  rw [permissionActions]
  -- The annotations are replaced in both languages, the declaration in the typed one alone.
  cases hlanguage : names.language with
  | js =>
    rw [hlanguage] at htyped
    refine ⟨settled, ?_, ?_⟩
    · refine hsettled.imp fun p p' h => ⟨h.1, ?_⟩
      rw [← String.toList_inj, h.2.eq_iff, IsKept]
      simp
    · rw [write_grants_append]
      exact htyped
  | ts =>
    rw [hlanguage] at htyped
    obtain ⟨declared, hdeclared, hdeclare⟩ :=
      declare_permissions settled (annotate .ts lookupTemplate)
    refine ⟨declared, ?_, ?_⟩
    · -- Each role goes through both passes, and is kept when both keep it.
      refine forall₂_of_forall₂ (fun p q r hs hd => ?_) hsettled.flip hdeclared
      refine ⟨hd.1.trans hs.1, ?_⟩
      rw [← String.toList_inj, hd.2.eq_iff_of_settled hs.2, IsKept]
      simp
    · rw [write_grants_append, declarePermissions, String.toList_ofList, htyped]
      exact hdeclare

/-! ## Reading the permissions back -/

/-- What a role is allowed to do is well-formed. -/
theorem isWellFormed_grants (g : Grants) : IsWellFormed g.toValue := by
  rw [Grants.toValue, isWellFormed_record, List.map_map]
  refine ⟨show (Capability.all.map (·.word)).Nodup by decide, ?_⟩
  simp only [List.forall_mem_map, isWellFormed_bool, implies_true]

/-- What a role is allowed to do has no real numbers in it. -/
theorem reals_grants (g : Grants) : reals g.toValue = [] := by
  simp [Grants.toValue, Capability.all, reals, entryReals]

/-- Permissions have no real numbers in them. -/
theorem reals_grantEntries (perms : List (String × Grants)) :
    reals (.record (grantEntries perms)) = [] := by
  rw [reals]
  induction perms with
  | nil => rfl
  | cons p perms ih => rw [grantEntries, List.map_cons, entryReals, reals_grants]; exact ih

/-- Permissions are well-formed when no role comes twice. -/
theorem isWellFormed_grantEntries {perms : List (String × Grants)}
    (h : (perms.map (·.1)).Nodup) : IsWellFormed (.record (grantEntries perms)) := by
  rw [isWellFormed_record, grantEntries, List.map_map]
  exact ⟨h, by simp only [List.forall_mem_map, isWellFormed_grants, implies_true]⟩

/-- The keys of permissions are their roles. -/
theorem grantEntries_fst (perms : List (String × Grants)) :
    (grantEntries perms).map (·.1) = perms.map (·.1) := List.map_map

/-- Other roles with what the same number of roles are allowed to do are the same when they are
merged to the same entries. -/
theorem eq_of_merged {perms perms' : List (String × Grants)}
    (hgrants : perms'.map (·.2) = perms.map (·.2))
    (h : merged (.record (grantEntries perms')) = .record (grantEntries perms)) :
    perms' = perms := by
  rw [merged] at h
  have hentries := Value.record.inj h
  have hlength : (grantEntries perms').length = (grantEntries perms).length := by
    simpa [grantEntries] using congrArg List.length hgrants
  -- No entry is lost where they are merged, so no role is repeated.
  have hnil : (([] : Entries).map (·.1)).Nodup := List.nodup_nil
  have hnone : ([] : Entries).length + (grantEntries perms').length ≤
      (mergedOnto [] (grantEntries perms')).length := by
    rw [hentries, hlength, List.length_nil, Nat.zero_add]
  have hnodup : ((grantEntries perms').map (·.1)).Nodup :=
    nodup_of_length_mergedOnto hnil hnone
  have hkept := merged_of_isWellFormed _
    (isWellFormed_grantEntries (grantEntries_fst perms' ▸ hnodup))
  rw [merged] at hkept
  have hroles : perms'.map (·.1) = perms.map (·.1) := by
    rw [← grantEntries_fst, ← grantEntries_fst, ← hentries, Value.record.inj hkept]
  simpa [List.zip_map'] using congrArg₂ List.zip hroles hgrants

/-- Roles of which only some change are the same when none of these is among them. -/
theorem eq_iff_of_forall₂ {Kept : String → Prop} {perms perms' : List (String × Grants)}
    (h : List.Forall₂ (fun p p' => p'.2 = p.2 ∧ (p'.1 = p.1 ↔ Kept p.1)) perms perms') :
    perms' = perms ↔ ∀ p ∈ perms, Kept p.1 := by
  induction h with
  | nil => simp
  | cons hp _ ih => rw [List.cons.injEq, Prod.ext_iff, hp.2, ih, List.forall_mem_cons,
      and_iff_left hp.1]

/-- **The permissions are read back if and only if all their roles are kept.** A role that was
changed is longer, or has fewer marks than it had, and so is not the role of the contract. -/
theorem declared?_permissions_iff (names : Names) (c : Contract)
    (hnodup : ((namedGrants c.permissions).map (·.1)).Nodup) :
    declared? "PERMISSIONS" (Region.closed (permissionActions names c).toList) =
        some (c.permissions.toValue Grants.toValue) ↔
      ∀ p ∈ c.permissions, IsKept names.language (keyText p.1) := by
  obtain ⟨perms', hrelated, htext⟩ := exists_permissionActions names c
  generalize lookupIn names.language = rest at htext
  have hclosed : ∃ rest', Region.closed ('\n' :: rest) = '\n' :: rest' := by
    unfold Region.closed
    split
    · exact ⟨_, rfl⟩
    · exact ⟨_, List.cons_append⟩
  obtain ⟨rest', hrest⟩ := hclosed
  have hdeclared : declared? "PERMISSIONS" (Region.closed (permissionActions names c).toList) =
      some (merged (.record (grantEntries perms'))) := by
    have hfront : ∀ l ∈ ([] : List (List Char)), Passes "PERMISSIONS" l := by simp
    have hfind := declaration?_headIn names.language
      (write blockStyle 0 (.record (grantEntries perms')) ++ ';' :: '\n' :: rest')
    have hsplit : (permissionActions names c).toList = ((headIn names.language).toList ++
        (write blockStyle 0 (.record (grantEntries perms')) ++ [';'])) ++ '\n' :: rest := by
      rw [htext]
      simp
    rw [hsplit, closed_append (List.cons_ne_nil _ _), hrest, List.append_assoc, List.append_assoc]
    refine (declared?_lines hfront (isSealed_write _ _ _) hfind).trans (read?_write ?_ _ _)
    simp [reals_grantEntries]
  have hkept : (∀ p ∈ namedGrants c.permissions, IsKept names.language p.1) ↔
      ∀ p ∈ c.permissions, IsKept names.language (keyText p.1) := List.forall_mem_map
  rw [hdeclared, Option.some_inj, toValue_grants, ← hkept]
  -- The grants are the same in any case, so that only the roles can differ.
  constructor
  · intro hmerged
    have hgrants := map_eq_map_of_forall₂ (hrelated.imp fun p p' h => h.1)
    exact (eq_iff_of_forall₂ hrelated).1 (eq_of_merged hgrants hmerged)
  · intro hkept
    rw [(eq_iff_of_forall₂ hrelated).2 hkept]
    exact merged_of_isWellFormed _ (isWellFormed_grantEntries hnodup)

end FormScaffold.View
