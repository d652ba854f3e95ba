import FormScaffold.Proofs.Contract.Transitions
import FormScaffold.Proofs.Region.Document
import FormScaffold.Proofs.View.Comment
import FormScaffold.Proofs.View.Template
import FormScaffold.View.Page
import FormScaffold.View.Shared

/-! # Bodies of generated regions

What a view puts between markers is plain, whatever the contract holds.

* **`isBody_of_isCalm`** — a calm text that starts with no line feed is a body;
* **`isPlain_transitionLines`** — a transition with names is plain, although its comment is not
  calm;
* `isCalm_constant`, `isCalm_slug` and their like — the parts of bodies. -/

namespace FormScaffold.View

open Region Text

/-! ## Calm parts -/

/-- Calm texts one behind the other are calm. -/
theorem isCalm_append {s t : String} (hs : IsCalm s.toList) (ht : IsCalm t.toList) :
    IsCalm (s ++ t).toList := by
  rw [String.toList_append]
  exact hs.append ht

/-- A constant is calm when its name and its literal are. -/
theorem isCalm_constant {name literal : String} (hname : IsCalm name.toList)
    (h : IsCalm literal.toList) : IsCalm (constant name literal).toList :=
  isCalm_append (isCalm_append (isCalm_append (isCalm_append (by decide) hname) (by decide)) h)
    (by decide)

/-- The literal of a text is calm. -/
theorem isCalm_text (s : String) : IsCalm (View.textLiteral s).toList := isCalm_literal _

/-- A slug is calm: it has nothing in it but letters, digits and hyphens. -/
theorem isCalm_slug (name : String) : IsCalm (Naming.slug name).toList := by
  refine isCalm_of_inert fun c hc => ?_
  rcases Naming.mem_slug hc with rfl | hc
  · decide
  · exact isInert_of_isAlphanum hc

/-- A slug between a text that leads inside a line and one that leads out of it. -/
theorem isCalm_around_slug (name : String) {opening closing : List Char}
    (hopening : ∀ p ∈ openPlaces, Leads p opening .inside)
    (hclosing : ∃ q ∈ openPlaces, Leads .inside closing q) :
    IsCalm (String.ofList opening ++ Naming.slug name ++ String.ofList closing).toList := by
  intro p hp
  obtain ⟨q, hq, hclose⟩ := hclosing
  have hslug : Leads .inside (Naming.slug name).toList .inside :=
    leads_inside fun c hc => by
      rcases Naming.mem_slug hc with rfl | hc
      · decide
      · exact isLineBreak_of_isAlphanum hc
  simp only [String.toList_append, String.toList_ofList]
  exact ⟨q, hq, ((hopening p hp).trans hslug).trans hclose⟩

/-! ## First characters -/

/-- What follows a text that is not empty does not change how it starts. -/
theorem head?_append {s t : String} {c : Char} (h : s.toList.head? = some c) :
    (s ++ t).toList.head? = some c := by
  rw [String.toList_append, List.head?_append, h]
  rfl

/-- A constant starts with the first letter of its keyword. -/
theorem head?_constant (name literal : String) :
    (constant name literal).toList.head? = some 'e' :=
  head?_append (head?_append (head?_append (head?_append (by decide))))

/-- Lines start as the first of them does, when it is not empty. -/
theorem head?_joinLines {l : String} {ls : List String} {c : Char}
    (h : l.toList.head? = some c) : (joinLines (l :: ls)).toList.head? = some c := by
  rw [joinLines, String.toList_intercalate]
  cases ls with
  | nil => simpa using h
  | cons m ls =>
    rw [List.map_cons, List.map_cons, List.intercalate_cons_cons, List.append_assoc,
      List.head?_append, h]
    rfl

/-- In either language a template starts as it is written, unless an annotation stands there. -/
theorem head?_typed (language : Language) {template : String} {c : Char}
    (h : template.toList.head? = some c) (hc : c ≠ '#') :
    (typed language template).toList.head? = some c := by
  rw [typed, String.toList_ofList]
  obtain ⟨rest, hrest⟩ := List.head?_eq_some_iff.1 h
  rw [hrest, annotate.eq_3 language c rest fun _ hhash => absurd hhash hc]
  rfl

/-- Writing a type into the head of the permissions keeps its first letter. -/
theorem head?_declarePermissions (language : Language) {text : String}
    (h : text.toList.head? = some 'e') :
    (declarePermissions language text).toList.head? = some 'e' := by
  cases language with
  | js => exact h
  | ts =>
    obtain ⟨rest, hrest⟩ := List.head?_eq_some_iff.1 h
    rw [declarePermissions, String.toList_ofList, hrest, replaceAll, replaceFrom]
    split
    · rw [List.head?_append, (by decide : typedPermissionsHead.toList.head? = some 'e')]
      rfl
    · rfl

/-! ## Bodies -/

/-- A body is plain when it is plain with a line feed at its end. -/
theorem isPlain_closed {body : List Char} (h : IsPlain (body ++ ['\n'])) :
    IsPlain (closed body) := by
  unfold closed
  split
  · rename_i hwhole
    rcases Bool.or_eq_true_iff.1 hwhole with hnil | hlf
    · rw [List.isEmpty_iff.1 hnil]
      exact isPlain_nil
    · exact ((isPlain_append (.inr (by simpa using hlf))).1 h).1
  · exact h

/-- A plain text that does not start with a line feed is a body. -/
theorem isBody_of_isPlain {body : List Char} (h : IsPlain (body ++ ['\n'])) {c : Char}
    (hhead : body.head? = some c) (hc : c ≠ '\n') : IsBody body := by
  refine ⟨isPlain_closed h, c, ?_, hc⟩
  unfold closed
  split
  · exact hhead
  · rw [List.head?_append, hhead]
    rfl

/-- **A calm text is a body** when it starts with no line feed. A body may not start with a line
feed, since the marker line before it would take it for its own when the carriage return of another
ending stands there. -/
theorem isBody_of_isCalm {body : List Char} (h : IsCalm body) {c : Char}
    (hhead : body.head? = some c) (hc : c ≠ '\n') : IsBody body :=
  isBody_of_isPlain h.isPlain hhead hc

/-- A constant is a body. -/
theorem isBody_constant {name literal : String} (hname : IsCalm name.toList)
    (h : IsCalm literal.toList) : IsBody (constant name literal).toList :=
  isBody_of_isCalm (isCalm_constant hname h) (head?_constant name literal) (by decide)

/-- Calm lines are a body when the first of them starts with no line feed. -/
theorem isBody_joinLines {l : String} {ls : List String} (h : ∀ m ∈ l :: ls, IsCalm m.toList)
    {c : Char} (hhead : l.toList.head? = some c) (hc : c ≠ '\n') :
    IsBody (joinLines (l :: ls)).toList :=
  isBody_of_isCalm (isCalm_joinLines h) (head?_joinLines hhead) hc

/-! ## Templates -/

/-- The templates that are read wherever code may go on. -/
def codeTemplates : List String :=
  [stateTemplate, behaviorTemplate, crudTemplate, canTemplate, clientTemplate,
    formObjectTemplate, rulesTemplate, noticesTemplate]

set_option maxRecDepth 20000 in
/-- The templates of code are calm, each as it is written. -/
theorem isCalm_codeTemplate : ∀ t ∈ codeTemplates, IsCalm t.toList := by
  simp only [codeTemplates, List.forall_mem_cons]
  exact ⟨isCalm_ofList (by decide), isCalm_ofList (by decide),
    isCalm_ofList (by decide), isCalm_ofList (by decide),
    isCalm_ofList (by decide), isCalm_ofList (by decide),
    isCalm_ofList (by decide), isCalm_ofList (by decide), by simp⟩

/-- The texts of a page around the name of its component. -/
def pageTemplates : List (String × String) := [(listHead, listTail), (formHead, formTail)]

set_option maxRecDepth 20000 in
/-- The templates of pages leave the inside of a line for the name of the component, and go on from
there. -/
theorem leads_pageTemplate : ∀ t ∈ pageTemplates,
    Leads .start t.1.toList .inside ∧ Leads .inside t.2.toList .start := by
  simp only [pageTemplates, List.forall_mem_cons]
  exact ⟨⟨leads_ofList (by decide), leads_ofList (by decide)⟩,
    ⟨leads_ofList (by decide), leads_ofList (by decide)⟩, by simp⟩

/-! ## Functions of transitions -/

/-- A name in use gets a number, so the characters of names do not matter. -/
theorem mem_freshName {used : List String} {base : String} {c : Char}
    (h : c ∈ (freshName used base).toList) : c ∈ base.toList ∨ c.isDigit = true := by
  unfold freshName at h
  split at h
  · cases hfind : ((List.range (used.length + 1)).map fun k => base ++ toString (k + 2)).find?
        (!used.contains ·) with
    | none =>
      rw [hfind] at h
      exact .inl h
    | some name =>
      rw [hfind, Option.getD_some] at h
      obtain ⟨k, -, rfl⟩ := List.mem_map.1 (List.mem_of_find?_eq_some hfind)
      rw [String.toList_append, List.mem_append, Nat.toString_eq_repr, Nat.toList_repr] at h
      rcases h with h | h
      · exact .inl h
      · exact .inr (Nat.isDigit_of_mem_toDigits (by decide) (by decide) h)
  · exact .inl h

/-- The names of the functions of transitions are of letters and digits. -/
theorem mem_bindingNames {used : List String} {ts : List Transition} {name : String}
    (h : name ∈ bindingNames used ts) : ∀ c ∈ name.toList, c.isAlphanum = true := by
  induction ts generalizing used with
  | nil => simp [bindingNames] at h
  | cons t ts ih =>
    rcases List.mem_cons.1 h with rfl | h
    · intro c hc
      rcases mem_freshName hc with hc | hc
      · exact Naming.mem_function hc
      · exact Bool.or_eq_true_iff.2 (.inr hc)
    · exact ih h

/-- The functions of transitions are calm, and each belongs to one of them. -/
theorem isCalm_of_mem_bindings {ts : List Transition} {b : String × Transition}
    (h : b ∈ bindings ts) : IsCalm b.1.toList ∧ b.2 ∈ ts := by
  obtain ⟨hname, ht⟩ := List.of_mem_zip h
  exact ⟨isCalm_of_inert fun c hc => isInert_of_isAlphanum (mem_bindingNames hname c hc), ht⟩

/-- **The lines of a transition with names are plain.** The comment is an arrow between two states,
and all else is code around literals. -/
theorem isPlain_transitionLines (names : Names) {b : String × Transition}
    (hname : IsCalm b.1.toList) (ht : b.2.IsNamed) :
    ∀ l ∈ transitionLines names b, IsPlain (l.toList ++ ['\n']) := by
  simp only [transitionLines, List.forall_mem_cons]
  refine ⟨?_, ?_, ?_, ?_, ?_, by simp⟩
  · -- The comment: its arrow keeps it apart from a marker, whatever the states are called.
    obtain ⟨c, hc, hblank⟩ := ht.target
    simp only [String.toList_append]
    exact isPlain_arrow (fun d hd => isLineBreak_of_mem_commentLine hd)
      (fun d hd => isLineBreak_of_mem_commentLine hd) (words_commentLine_ne_nil hc hblank)
  · exact (isCalm_typed _ (isCalm_append (isCalm_append (by decide) hname)
      (isCalm_ofList (by decide)))).isPlain
  · exact (isCalm_append (isCalm_append (isCalm_append (isCalm_append
      (isCalm_ofList (by decide)) (isCalm_text _)) (by decide)) (isCalm_text _))
      (by decide)).isPlain
  · exact (isCalm_ofList (by decide)).isPlain
  · exact isCalm_nil.isPlain

end FormScaffold.View
