import FormScaffold.Proofs.View.Calm

/-! # Templates

A template is read the same way before and after its annotations are settled and its declarations
get their types.

* **`leads_annotate`** — settling annotations keeps where a text leads;
* `leads_declarePermissions` — so does declaring permissions with their type;
* **`isPlain_joinLines`** — lines are plain together when each of them is. -/

namespace FormScaffold.View

open Region Text

/-! ## Spelled-out text -/

/-- A template is read character by character as it is spelled out. -/
theorem leads_ofList {cs : List Char} {p q : LinePlace} (h : Leads p cs q) :
    Leads p (String.ofList cs).toList q := by
  rwa [String.toList_ofList]

/-- A text is calm when its characters are. -/
theorem isCalm_ofList {cs : List Char} (h : IsCalm cs) : IsCalm (String.ofList cs).toList := by
  rwa [String.toList_ofList]

/-- A text starts with the first of its characters. -/
theorem head?_ofList (c : Char) (cs : List Char) :
    (String.ofList (c :: cs)).toList.head? = some c := by
  rw [String.toList_ofList]
  rfl

/-! ## Annotations -/

/-- An annotation stands on one line, before its closing mark. -/
theorem untilClose_eq_some {cs inside left : List Char}
    (h : untilClose cs = some (inside, left)) :
    cs = inside ++ '\x7d' :: '#' :: left ∧ ∀ c ∈ inside, c ≠ '\n' := by
  induction cs using untilClose.induct generalizing inside left with
  | case1 => simp [untilClose] at h
  | case2 rest =>
    rw [untilClose] at h
    obtain ⟨rfl, rfl⟩ := Prod.mk.inj (Option.some.inj h)
    exact ⟨rfl, by simp⟩
  | case3 c rest hopen hlf =>
    rw [untilClose.eq_3 c rest hopen, hlf] at h
    simp at h
  | case4 c rest hopen hlf ih =>
    rw [untilClose.eq_3 c rest hopen, if_neg hlf] at h
    obtain ⟨⟨inside', left'⟩, hrest, heq⟩ := Option.map_eq_some_iff.1 h
    obtain ⟨rfl, rfl⟩ := Prod.mk.inj heq
    obtain ⟨hcs, hinside⟩ := ih hrest
    refine ⟨by rw [hcs]; rfl, ?_⟩
    intro d hd
    rcases List.mem_cons.1 hd with rfl | hd
    · simpa using hlf
    · exact hinside d hd

/-- What is read inside a line and holds no line feed leads nowhere. -/
theorem eq_inside_of_leads {cs : List Char} {q : LinePlace} (h : ∀ c ∈ cs, c ≠ '\n')
    (hq : Leads .inside cs q) : q = .inside := by
  have hbreaks : ∀ c ∈ cs, isLineBreak c = false := by
    intro c hc
    by_contra hbreak
    exact h c hc (breaks_of_leads hq c hc (by simpa using hbreak))
  exact Option.some.inj (hq.symm.trans (leads_inside hbreaks))

/-- Only inside a line an annotation is read. -/
theorem eq_inside_of_hash {p q : LinePlace} (h : p.next '#' = some q) :
    p = .inside ∧ q = .inside := by
  revert h
  cases p <;> cases q <;> decide

/-- A closed annotation is settled. -/
theorem annotate_of_close (language : Language) {rest inside left : List Char}
    (h : untilClose rest = some (inside, left)) :
    annotate language ('#' :: '\x7b' :: rest) =
      (match language with
        | .ts => inside
        | .js => []) ++ annotate language left := by
  rw [annotate]
  split
  · rename_i heq
    obtain ⟨rfl, rfl⟩ := Prod.mk.inj (Option.some.inj (h.symm.trans heq))
    rfl
  · rename_i heq
    rw [h] at heq
    simp at heq

/-- What is not closed is no annotation. -/
theorem annotate_of_open (language : Language) {rest : List Char} (h : untilClose rest = none) :
    annotate language ('#' :: '\x7b' :: rest) = '#' :: annotate language ('\x7b' :: rest) := by
  rw [annotate]
  split
  · rename_i heq
    rw [h] at heq
    simp at heq
  · rfl

/-- **Settling annotations keeps where a text leads.** What stands between the marks of an
annotation stays inside its line. -/
theorem leads_annotate (language : Language) {p q : LinePlace} {cs : List Char} (h : Leads p cs q) :
    Leads p (annotate language cs) q := by
  induction cs using annotate.induct generalizing p with
  | case1 =>
    rw [annotate]
    exact h
  | case2 rest inside left hclose ih =>
    -- The annotation stands inside a line, and so does what is left of it.
    obtain ⟨hrest, hinside⟩ := untilClose_eq_some hclose
    obtain ⟨p', hp', h⟩ := leads_cons.1 h
    obtain ⟨rfl, rfl⟩ := eq_inside_of_hash hp'
    obtain ⟨r, hr, h⟩ := leads_cons.1 h
    obtain rfl : LinePlace.inside = r := Option.some.inj hr
    rw [hrest, leads_append] at h
    obtain ⟨r, hread, h⟩ := h
    obtain rfl := eq_inside_of_leads hinside hread
    obtain ⟨r, hr, h⟩ := leads_cons.1 h
    obtain rfl : LinePlace.inside = r := Option.some.inj hr
    obtain ⟨r, hr, h⟩ := leads_cons.1 h
    obtain rfl : LinePlace.inside = r := Option.some.inj hr
    rw [annotate_of_close language hclose]
    cases language with
    | js => exact ih h
    | ts => exact hread.trans (ih h)
  | case3 rest hclose ih =>
    obtain ⟨p', hp', h⟩ := leads_cons.1 h
    rw [annotate_of_open language hclose]
    exact leads_cons.2 ⟨p', hp', ih h⟩
  | case4 c rest hopen ih =>
    obtain ⟨p', hp', h⟩ := leads_cons.1 h
    rw [annotate.eq_3 language c rest hopen]
    exact leads_cons.2 ⟨p', hp', ih h⟩

/-- A template leads in both languages to where it leads as it is written. -/
theorem leads_typed (language : Language) {p q : LinePlace} {template : String}
    (h : Leads p template.toList q) : Leads p (typed language template).toList q := by
  rw [typed, String.toList_ofList]
  exact leads_annotate language h

/-- A template that is calm as it is written is calm in both languages. -/
theorem isCalm_typed (language : Language) {template : String} (h : IsCalm template.toList) :
    IsCalm (typed language template).toList := by
  intro p hp
  obtain ⟨q, hq, hread⟩ := h p hp
  exact ⟨q, hq, leads_typed language hread⟩

/-! ## Declared types -/

/-- Elements that belong to an occurrence are passed over. -/
theorem replaceFrom_eq_drop {α : Type} [DecidableEq α] (old new : List α) (skip : Nat)
    (cs : List α) : replaceFrom old new skip cs = replaceAll old new (cs.drop skip) := by
  induction skip generalizing cs with
  | zero => rfl
  | succ k ih =>
    cases cs with
    | nil => rfl
    | cons c cs => rw [replaceFrom, ih, List.drop_succ_cons]

/-- A text is replaced by one that leads from the same place to the same place. -/
theorem leads_replaceAll {old new : List Char} (hne : old ≠ [])
    (hnew : ∀ p q, Leads p old q → Leads p new q) {p q : LinePlace} {cs : List Char}
    (h : Leads p cs q) : Leads p (replaceAll old new cs) q := by
  induction hn : cs.length using Nat.strong_induction_on generalizing p cs with
  | _ n ih =>
    subst hn
    cases cs with
    | nil => exact h
    | cons c cs =>
      rw [replaceAll, replaceFrom]
      split
      · rename_i hold
        obtain ⟨rest, hrest⟩ := List.isPrefixOf_iff_prefix.1 hold
        obtain ⟨d, old', rfl⟩ := List.exists_cons_of_ne_nil hne
        obtain ⟨-, hcs⟩ := List.cons.inj hrest
        rw [← hrest, leads_append] at h
        obtain ⟨r, hread, h⟩ := h
        have hdrop : cs.drop ((d :: old').length - 1) = rest := by
          rw [← hcs]
          exact List.drop_left
        rw [replaceFrom_eq_drop, hdrop]
        -- The new text leads where the old one did, and what is left is shorter.
        refine (hnew p r hread).trans (ih rest.length ?_ h rfl)
        rw [← hrest, List.length_append, List.length_cons]
        omega
      · obtain ⟨p', hp', h⟩ := leads_cons.1 h
        exact leads_cons.2 ⟨p', hp', ih cs.length (by simp) h rfl⟩

/-- Writing a type into the head of the permissions leads to where the text leads without it. -/
theorem leads_declarePermissions (language : Language) {p q : LinePlace} {text : String}
    (h : Leads p text.toList q) : Leads p (declarePermissions language text).toList q := by
  cases language with
  | js => exact h
  | ts =>
    have hnew : ∀ p q, Leads p permissionsHead.toList q →
        Leads p typedPermissionsHead.toList q := by
      intro p q
      rw [permissionsHead, typedPermissionsHead, String.toList_ofList, String.toList_ofList]
      cases p <;> cases q <;> decide
    rw [declarePermissions, String.toList_ofList]
    exact leads_replaceAll (by decide) hnew h

/-- Writing a type into the head of the permissions keeps a text calm. -/
theorem isCalm_declarePermissions (language : Language) {text : String}
    (h : IsCalm text.toList) : IsCalm (declarePermissions language text).toList := by
  intro p hp
  obtain ⟨q, hq, hread⟩ := h p hp
  exact ⟨q, hq, leads_declarePermissions language hread⟩

/-! ## Lines -/

/-- Lines with line feeds between them, with one at the end as well. -/
theorem joinLines_lf {l : String} {ls : List String} :
    (joinLines (l :: ls)).toList ++ ['\n'] = (l :: ls).flatMap fun l => l.toList ++ ['\n'] := by
  rw [joinLines, String.toList_intercalate]
  induction ls generalizing l with
  | nil => simp
  | cons m ls ih =>
    rw [List.map_cons, List.map_cons, List.intercalate_cons_cons, List.append_assoc,
      ← List.map_cons, ih]
    rfl

/-- **Lines are plain together when each of them is.** Each is closed with a line feed, so that none
goes on in the next one. -/
theorem isPlain_joinLines {l : String} {ls : List String}
    (h : ∀ m ∈ l :: ls, IsPlain (m.toList ++ ['\n'])) :
    IsPlain ((joinLines (l :: ls)).toList ++ ['\n']) := by
  rw [joinLines_lf]
  generalize l :: ls = ms at h
  induction ms with
  | nil => exact isPlain_nil
  | cons m ms ih =>
    rw [List.flatMap_cons]
    exact (isPlain_append (.inr List.getLast?_concat)).2
      ⟨h m List.mem_cons_self, ih fun n hn => h n (List.mem_cons_of_mem _ hn)⟩

/-- A calm text on a line of its own is plain. -/
theorem IsCalm.isPlain {cs : List Char} (h : IsCalm cs) : IsPlain (cs ++ ['\n']) :=
  isPlain_of_leads h.leads_lf

/-- Lines that are calm are calm together. -/
theorem isCalm_joinLines {ls : List String} (h : ∀ l ∈ ls, IsCalm l.toList) :
    IsCalm (joinLines ls).toList := by
  rw [joinLines, String.toList_intercalate]
  induction ls with
  | nil => exact isCalm_nil
  | cons l ls ih =>
    have hl := h l List.mem_cons_self
    have hls := ih fun m hm => h m (List.mem_cons_of_mem _ hm)
    cases ls with
    | nil => simpa using hl
    | cons m ls =>
      rw [List.map_cons, List.map_cons, List.intercalate_cons_cons]
      exact (hl.append (by decide)).append hls

end FormScaffold.View
