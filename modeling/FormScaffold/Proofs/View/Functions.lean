import Mathlib.Data.List.Infix
import Mathlib.Data.List.Perm.Subperm
import FormScaffold.Proofs.View.TopNames

/-! # Functions of transitions

Every transition of a workflow gets a function of its own among the actions. The names of functions
are made from free text, so that many can come to the same; the search for one that is free ends
with the first.

* **`isFirstFree_bindingNames`** — every transition has the first name that is free;
* **`isCamel_of_mem_bindingNames`** — the names of functions are written in camel case;
* `infix_bindingBase` — and show the word between an action and its state, as no other name does;
* **`topNames_actionsModule`** — the names of the module of the actions;
* **`isWellNamed_bindings`** — the functions of transitions are well named. -/

namespace FormScaffold.View

open Region Text Json

/-! ## Names in use -/

/-- The names that a function could get: what it would like to be called, and then that with the
numbers from 2 on. -/
def candidate (base : String) : Nat → String
  | 0 => base
  | k + 1 => base ++ toString (k + 2)

/-- **The first candidate that is not in use.** -/
structure IsFirstFree (used : List String) (base name : String) : Prop where
  free : name ∉ used
  first : ∃ k, name = candidate base k ∧ ∀ j < k, candidate base j ∈ used

/-- A candidate after the first is the base with a number behind it, from 2 on. -/
theorem toList_candidate_succ (base : String) (k : Nat) :
    (candidate base (k + 1)).toList = base.toList ++ Nat.toDigits 10 (k + 2) := by
  rw [candidate, String.toList_append, Nat.toString_eq_repr, Nat.toList_repr]

/-- No two candidates of a base are one. -/
theorem candidate_injective (base : String) : Function.Injective (candidate base) := by
  -- The digits behind the base tell the number.
  have hvalue : ∀ n, Nat.ofDigitChars 10 (Nat.toDigits 10 n) 0 = n := fun n =>
    Nat.ofDigitChars_toDigits (by decide) (by decide)
  have hne : ∀ k, candidate base 0 ≠ candidate base (k + 1) := by
    intro k heq
    rw [← String.toList_inj, toList_candidate_succ, candidate, List.self_eq_append_right] at heq
    have hdigits := hvalue (k + 2)
    rw [heq] at hdigits
    exact absurd hdigits (by simp)
  intro j k heq
  cases j with
  | zero =>
    cases k with
    | zero => rfl
    | succ k => exact absurd heq (hne k)
  | succ j =>
    cases k with
    | zero => exact absurd heq.symm (hne j)
    | succ k =>
      rw [← String.toList_inj, toList_candidate_succ, toList_candidate_succ,
        List.append_cancel_left_eq] at heq
      have hdigits := hvalue (j + 2)
      rw [heq, hvalue] at hdigits
      omega

/-- There are more candidates than names in use. -/
theorem exists_candidate_notMem (used : List String) (base : String) :
    ∃ k ≤ used.length, candidate base k ∉ used := by
  by_contra hall
  push Not at hall
  have hsub : (List.range (used.length + 1)).map (candidate base) ⊆ used :=
    List.forall_mem_map.2 fun k hk => hall k (Nat.le_of_lt_succ (List.mem_range.1 hk))
  have hnodup : ((List.range (used.length + 1)).map (candidate base)).Nodup :=
    List.nodup_range.map (candidate_injective base)
  have hlength := (List.subperm_of_subset hnodup hsub).length_le
  rw [List.length_map, List.length_range] at hlength
  omega

/-- **The search for a name that is not in use ends with the first one.** There are as many
candidates as are needed: one more than there are names in use. -/
theorem isFirstFree_freshName (used : List String) (base : String) :
    IsFirstFree used base (freshName used base) := by
  unfold freshName
  by_cases hbase : base ∈ used
  · rw [if_pos (by simpa using hbase), List.find?_map]
    cases hfind : (List.range (used.length + 1)).find?
        ((!used.contains ·) ∘ fun k => base ++ toString (k + 2)) with
    | none =>
      -- A candidate that is free would have been found.
      obtain ⟨k, hk, hfree⟩ := exists_candidate_notMem used base
      rw [List.find?_eq_none] at hfind
      cases k with
      | zero => exact absurd hbase hfree
      | succ k =>
        have hused := hfind k (List.mem_range.2 (by omega))
        exact absurd hused (by simpa [candidate] using hfree)
    | some k =>
      obtain ⟨hfree, -, hfirst⟩ := List.find?_range_eq_some.1 hfind
      refine ⟨by simpa using hfree, k + 1, rfl, fun j hj => ?_⟩
      cases j with
      | zero => exact hbase
      | succ j => simpa [candidate] using hfirst j (by omega)
  · rw [if_neg (by simpa using hbase)]
    exact ⟨hbase, 0, rfl, by simp⟩

/-- **Every transition has the first name that is neither in use nor that of a transition before
it.** A name that was found is in use for the transitions behind it. -/
theorem isFirstFree_bindingNames {ts : List Transition} {i : Nat} {t : Transition}
    (h : ts[i]? = some t) (used : List String) :
    ∃ name, (bindingNames used ts)[i]? = some name ∧
      IsFirstFree (used ++ (bindingNames used ts).take i) (bindingBase t) name := by
  induction ts generalizing used i with
  | nil => exact absurd h (by simp)
  | cons u ts ih =>
    cases i with
    | zero =>
      obtain rfl : u = t := by simpa using h
      exact ⟨_, rfl, by simpa using isFirstFree_freshName used (bindingBase u)⟩
    | succ i =>
      obtain ⟨name, hname, hfirst⟩ :=
        ih (by simpa using h) (used ++ [freshName used (bindingBase u)])
      refine ⟨name, hname, ?_⟩
      rwa [List.append_assoc, List.singleton_append] at hfirst

-- A number behind one name can make it the base of another.
example : bindingNames [] [⟨"A", "Go", "B", none⟩, ⟨"a", "go", "C", none⟩,
    ⟨"A2", "Go", "B", none⟩] = ["goFromA", "goFromA2", "goFromA22"] := by decide +kernel

/-- **The names of the functions are different from each other**, and from all that are in use. -/
theorem nodup_bindingNames (used : List String) (ts : List Transition) :
    (bindingNames used ts).Nodup ∧ ∀ name ∈ bindingNames used ts, name ∉ used := by
  induction ts generalizing used with
  | nil => exact ⟨List.nodup_nil, by simp [bindingNames]⟩
  | cons t ts ih =>
    obtain ⟨hnodup, hfree⟩ := ih (used ++ [freshName used (bindingBase t)])
    rw [bindingNames, List.nodup_cons, List.forall_mem_cons]
    refine ⟨⟨fun hmem => hfree _ hmem (by simp), hnodup⟩,
      (isFirstFree_freshName used (bindingBase t)).free, fun name hmem hused => ?_⟩
    exact hfree name hmem (List.mem_append_left _ hused)

/-- The functions have the names that are found for the transitions. -/
theorem map_fst_bindings (ts : List Transition) :
    (bindings ts).map Prod.fst = bindingNames [] ts :=
  List.map_fst_zip (length_bindingNames [] ts).le

/-! ## The characters of names -/

/-- A name of a function is a candidate of a transition. -/
theorem exists_candidate_of_mem {used : List String} {ts : List Transition} {name : String}
    (h : name ∈ bindingNames used ts) : ∃ t k, name = candidate (bindingBase t) k := by
  induction ts generalizing used with
  | nil => exact absurd h List.not_mem_nil
  | cons t ts ih =>
    rcases List.mem_cons.1 h with rfl | h
    · obtain ⟨k, hk, -⟩ := (isFirstFree_freshName used (bindingBase t)).first
      exact ⟨t, k, hk⟩
    · exact ih h

/-- A number behind the base changes nothing in front of it. -/
theorem exists_toList_candidate (base : String) (k : Nat) :
    ∃ digits, (candidate base k).toList = base.toList ++ digits ∧
      ∀ d ∈ digits, d.isAlphanum = true := by
  cases k with
  | zero => exact ⟨[], (List.append_nil _).symm, by simp⟩
  | succ k =>
    refine ⟨_, toList_candidate_succ base k, fun d hd => Bool.or_eq_true_iff.2 (.inr ?_)⟩
    exact Nat.isDigit_of_mem_toDigits (by decide) (by decide) hd

/-- **The names of functions are written in camel case.** Numbers are put at the end of names, which
keeps them so. -/
theorem isCamel_of_mem_bindingNames {used : List String} {ts : List Transition} {name : String}
    (h : name ∈ bindingNames used ts) : Naming.IsCamel name := by
  obtain ⟨t, k, rfl⟩ := exists_candidate_of_mem h
  obtain ⟨digits, hname, hdigits⟩ := exists_toList_candidate (bindingBase t) k
  obtain ⟨c, cs, hbase, hc, hcs⟩ := Naming.isCamel_function (t.action ++ " from " ++ t.source)
  refine ⟨c, cs ++ digits, ?_, hc, List.forall_mem_append.2 ⟨hcs, hdigits⟩⟩
  rw [hname, bindingBase, hbase, List.cons_append]

/-- What is done to the first letter of a name leaves the rest. -/
theorem exists_small_letterFirst (front back : List Char) (c : Char) :
    ∃ front', Naming.small (Naming.letterFirst (front ++ c :: back)) = front' ++ back := by
  have hsmall : ∀ front : List Char, ∃ front',
      Naming.small (front ++ c :: back) = front' ++ back := by
    intro front
    cases front with
    | nil => exact ⟨[c.toLower], rfl⟩
    | cons d front => exact ⟨d.toLower :: (front ++ [c]), by simp [Naming.small]⟩
  unfold Naming.letterFirst
  split
  · rename_i hnil
    exact absurd hnil (by simp)
  · rename_i d ds hcons
    split
    · rw [← List.cons_append]
      exact hsmall ('E' :: front)
    · exact hsmall front

/-- **The word between an action and its state stays in the name of a function**, but for its first
letter. No other name of the module has these letters, so that no function can take one of them. -/
theorem infix_bindingBase (t : Transition) :
    ['r', 'o', 'm'] <:+: (bindingBase t).toList := by
  have hname : (t.action ++ " from " ++ t.source).toList =
      t.action.toList ++ ' ' :: (['f', 'r', 'o', 'm'] ++ ' ' :: t.source.toList) := by
    rw [String.toList_append, String.toList_append, List.append_assoc]
    rfl
  have hparts : Naming.parts (t.action ++ " from " ++ t.source).toList =
      Naming.parts t.action.toList ++ ['f', 'r', 'o', 'm'] :: Naming.parts t.source.toList := by
    rw [hname, Naming.parts, List.splitOnP_append_cons _ _ (by decide),
      List.splitOnP_append_cons _ _ (by decide), List.filter_append, List.filter_append]
    rfl
  obtain ⟨front, hfront⟩ := exists_small_letterFirst
    ((Naming.parts t.action.toList).flatMap Naming.capital)
    (['r', 'o', 'm'] ++ (Naming.parts t.source.toList).flatMap Naming.capital) 'F'
  refine ⟨front, (Naming.parts t.source.toList).flatMap Naming.capital, ?_⟩
  rw [bindingBase, Naming.function, String.toList_ofList, Naming.pascal, hparts,
    List.flatMap_append, List.flatMap_cons, List.append_assoc, ← hfront]
  rfl

/-- Every function has the letters of a word of its own in its name, by which it differs from all
that the module declares besides. -/
theorem infix_of_mem_bindingNames {used : List String} {ts : List Transition} {name : String}
    (h : name ∈ bindingNames used ts) : ['r', 'o', 'm'] <:+: name.toList := by
  obtain ⟨t, k, rfl⟩ := exists_candidate_of_mem h
  obtain ⟨digits, hname, -⟩ := exists_toList_candidate (bindingBase t) k
  rw [hname]
  exact (infix_bindingBase t).trans (List.prefix_append _ _).isInfix

/-! ## Names of the actions -/

/-- What the module of the actions imports and declares before the functions of transitions. -/
def namesBefore : List String :=
  ["resource", "LIST_FIELDS", "listRecords", "getRecord", "createRecord", "updateRecord",
    "deleteRecord", "applyWorkflowAction", "WORKFLOW_STATE_FIELD", "WORKFLOW_ACTIONS"]

/-- What it declares after them. -/
def namesBehind : List String := ["availableActions", "runWorkflowAction", "PERMISSIONS", "can"]

/-- The names that the actions on documents declare, in both languages. -/
theorem topNames_crudTemplate (language : Language) :
    topNames (annotate language crudTemplate.toList ++ ['\n']) =
      ["listRecords", "getRecord", "createRecord", "updateRecord", "deleteRecord"] := by
  rw [crudTemplate, String.toList_ofList, annotate_eq_settle language (Nat.le_refl _)]
  cases language <;> decide +kernel

/-- The name that stands behind the permissions, in both languages. -/
theorem topNames_lookupIn (language : Language) :
    topNames (lookupIn language ++ ['\n']) = ["can"] := by
  have htemplate : ∀ language, annotate language lookupTemplate =
      settle language lookupTemplate.length lookupTemplate :=
    fun language => annotate_eq_settle language (Nat.le_refl _)
  cases language <;>
  · rw [lookupIn, htemplate, lookupTemplate, canTemplate, String.toList_ofList]
    decide +kernel

/-- The line that imports the resource of an entity. -/
def resourceImport (c : Contract) : String :=
  "import \x7b resource, LIST_FIELDS \x7d from '../pages/" ++ Naming.slug c.entity ++ "/resource';"

/-- The import is one line, in which nothing is annotated. -/
theorem mem_resourceImport (c : Contract) :
    ∀ d ∈ (resourceImport c).toList, isLineBreak d = false ∧ d ≠ '#' := by
  have hslug : ∀ d ∈ (Naming.slug c.entity).toList, isLineBreak d = false ∧ d ≠ '#' := by
    intro d hd
    rcases Naming.mem_slug hd with rfl | hd
    · decide
    · refine ⟨isLineBreak_of_isAlphanum hd, ?_⟩
      rintro rfl
      exact absurd hd (by decide)
  unfold resourceImport
  simp only [String.toList_append, List.forall_mem_append]
  exact ⟨⟨by decide, hslug⟩, by decide⟩

/-- The names that the import of the resource brings, whatever the slug of the entity is. -/
theorem lineNames_resourceImport (c : Contract) :
    lineNames ((resourceImport c).toList ++ ['\n']) = ["resource", "LIST_FIELDS"] := by
  have hopening : "import \x7b resource, LIST_FIELDS \x7d from '../pages/".toList =
      "import ".toList ++ "\x7b resource, LIST_FIELDS \x7d from ".toList ++
        '\'' :: "../pages/".toList := by decide
  have himport : (resourceImport c).toList ++ ['\n'] = "import ".toList ++
      "\x7b resource, LIST_FIELDS \x7d from ".toList ++ '\'' :: ("../pages/".toList ++
        ((Naming.slug c.entity).toList ++ ("/resource';".toList ++ ['\n']))) := by
    unfold resourceImport
    rw [String.toList_append, String.toList_append, hopening]
    simp only [List.append_assoc, List.cons_append]
  rw [himport, lineNames_import (by decide)]
  decide

/-- The access to records is written below the import. -/
theorem toList_crudActions (c : Contract) (language : Language) :
    (crudActions (.ofContract c language)).toList =
      (resourceImport c).toList ++ ['\n'] ++ ['\n'] ++ annotate language crudTemplate.toList := by
  have hfront : ∀ d ∈ (resourceImport c).toList ++ ['\n'] ++ ['\n'], d ≠ '#' := by
    simp only [List.forall_mem_append, List.forall_mem_singleton]
    exact ⟨⟨fun d hd => (mem_resourceImport c d hd).2, by decide⟩, by decide⟩
  have hsplit : ("import \x7b resource, LIST_FIELDS \x7d from '../pages/" ++
      Naming.slug c.entity ++ "/resource';\n\n").toList =
        (resourceImport c).toList ++ ['\n'] ++ ['\n'] := by
    unfold resourceImport
    simp only [String.toList_append, List.append_assoc]
    rfl
  rw [← annotate_append language hfront, ← hsplit, ← String.toList_append]
  exact String.toList_ofList

/-- The access to records comes with two imports. -/
theorem bodyNames_crudActions (c : Contract) (language : Language) :
    bodyNames (crudActions (.ofContract c language)) =
      ["resource", "LIST_FIELDS", "listRecords", "getRecord", "createRecord", "updateRecord",
        "deleteRecord"] := by
  rw [bodyNames, toList_crudActions, List.append_assoc, topNames_append (.inr List.getLast?_concat),
    topNames_append (.inr List.getLast?_concat),
    topNames_line fun d hd => (mem_resourceImport c d hd).1, topNames_lf, topNames_crudTemplate,
    lineNames_resourceImport]
  rfl

/-- Letters and digits stand in identifiers. -/
theorem isIdentifierPart_of_isAlphanum {c : Char} (h : c.isAlphanum = true) :
    isIdentifierPart c = true := by
  simp [isIdentifierPart, h]

/-- The parameter of the function of a transition. -/
def parameterIn : Language → String
  | .js => "(name) \x7b"
  | .ts => "(name: string) \x7b"

/-- The head of the function of a transition. -/
theorem typed_functionHead (language : Language) {name : String}
    (hname : ∀ c ∈ name.toList, c.isAlphanum = true) :
    typed language ("export function " ++ name ++ r#"(name#{: string}#) {"#) =
      "export function " ++ name ++ parameterIn language := by
  have hfront : ∀ c ∈ ("export function " ++ name).toList, c ≠ '#' := by
    rw [String.toList_append]
    refine List.forall_mem_append.2 ⟨by decide, ?_⟩
    rintro c hc rfl
    exact absurd (hname _ hc) (by decide)
  have hparameter : annotate language r#"(name#{: string}#) {"#.toList =
      (parameterIn language).toList := by
    rw [annotate_eq_settle language (Nat.le_refl _)]
    cases language <;> decide +kernel
  rw [← String.toList_inj, typed, String.toList_ofList, String.toList_append,
    annotate_append language hfront, hparameter, ← String.toList_append]

/-- The head of a function brings in its name. -/
theorem bodyNames_functionHead (language : Language) {name : String}
    (hname : ∀ c ∈ name.toList, c.isAlphanum = true)
    (hunbroken : ∀ c ∈ ("export function " ++ name ++ parameterIn language).toList,
      isLineBreak c = false) :
    bodyNames ("export function " ++ name ++ parameterIn language) = [name] := by
  obtain ⟨rest, hrest⟩ : ∃ rest, (parameterIn language).toList = '(' :: rest := by
    cases language <;> exact ⟨_, rfl⟩
  have hexport : "export function ".toList = "export ".toList ++ "function ".toList := by decide
  have hpart : ∀ c ∈ name.toList, isIdentifierPart c = true := fun c hc =>
    isIdentifierPart_of_isAlphanum (hname c hc)
  have hline : ("export function " ++ name ++ parameterIn language).toList ++ ['\n'] =
      "export ".toList ++ ("function ".toList ++ (name.toList ++ '(' :: (rest ++ ['\n']))) := by
    rw [String.toList_append, String.toList_append, hrest, hexport]
    simp only [List.append_assoc, List.cons_append]
  rw [bodyNames, topNames_line hunbroken, hline, lineNames_export (by decide) hpart (by decide)]

/-- The comment above the function of a transition. -/
def transitionComment (t : Transition) : String :=
  "// " ++ commentLine t.source ++ " -> " ++ commentLine t.target

/-- **The comment of a transition breaks no line.** Its two texts were made lines of a comment, and
the arrow between them has no break. -/
theorem unbroken_transitionComment (t : Transition) :
    ∀ c ∈ (transitionComment t).toList, isLineBreak c = false := by
  simp only [transitionComment, String.toList_append, List.forall_mem_append]
  exact ⟨⟨⟨by decide, fun c => isLineBreak_of_mem_commentLine⟩, by decide⟩,
    fun c => isLineBreak_of_mem_commentLine⟩

/-- The function of a transition in a language, line by line, below its comment. -/
def functionLines (names : Names) (b : String × Transition) : List String :=
  [transitionComment b.2,
    "export function " ++ b.1 ++ parameterIn names.language,
    "  return applyWorkflowAction(" ++ textLiteral names.entity ++ ", name, " ++
      textLiteral b.2.action ++ ");",
    "\x7d",
    ""]

section Transition

variable (names : Names) {b : String × Transition} (hname : ∀ c ∈ b.1.toList, c.isAlphanum = true)
include hname

/-- The lines of a transition, with the parameter as the language has it: no annotation can stand in
the name of a function. -/
theorem transitionLines_eq : transitionLines names b = functionLines names b := by
  rw [transitionLines, typed_functionHead names.language hname]
  rfl

/-- Each of the lines is one line. -/
theorem unbroken_functionLines :
    ∀ l ∈ functionLines names b, ∀ c ∈ l.toList, isLineBreak c = false := by
  simp only [functionLines, List.forall_mem_cons]
  refine ⟨unbroken_transitionComment b.2, ?_, ?_, by decide, by decide, by simp⟩
  · simp only [String.toList_append, List.forall_mem_append]
    refine ⟨⟨by decide, fun c hc => isLineBreak_of_isAlphanum (hname c hc)⟩, ?_⟩
    cases names.language <;> decide
  · simp only [String.toList_append, List.forall_mem_append]
    exact ⟨⟨⟨⟨by decide, unbroken_textLiteral _⟩, by decide⟩, unbroken_textLiteral _⟩, by decide⟩

/-- **A transition brings in its function.** The lines of its body do not start with a word that
declares something. -/
theorem bodyNames_transitionLines : (transitionLines names b).flatMap bodyNames = [b.1] := by
  have hunbroken := unbroken_functionLines names hname
  simp only [functionLines, List.forall_mem_cons] at hunbroken
  obtain ⟨hcommentLine, hheadLine, hcallLine, -⟩ := hunbroken
  have hcomment : bodyNames (transitionComment b.2) = [] := by
    refine bodyNames_of_head (c := '/') ?_ (by decide) hcommentLine
    exact head?_append (head?_append (head?_append (by decide)))
  have hhead := bodyNames_functionHead names.language hname hheadLine
  have hcall : bodyNames ("  return applyWorkflowAction(" ++ textLiteral names.entity ++
      ", name, " ++ textLiteral b.2.action ++ ");") = [] := by
    refine bodyNames_of_head (c := ' ') ?_ (by decide) hcallLine
    exact head?_append (head?_append (head?_append (head?_append (by decide))))
  have hend : bodyNames "\x7d" = [] := by decide
  have hempty : bodyNames "" = [] := by decide
  simp only [transitionLines_eq names hname, functionLines, List.flatMap_cons, List.flatMap_nil,
    hcomment, hhead, hcall, hend, hempty, List.nil_append, List.append_nil]

end Transition

/-- **The workflow brings in the functions of its transitions**, among others. The names before them
are those of its imports and constants, and the names behind those of two functions that are always
there. -/
theorem bodyNames_workflowActions (names : Names) (c : Contract) :
    bodyNames (workflowActions names c) =
      ["applyWorkflowAction", "WORKFLOW_STATE_FIELD", "WORKFLOW_ACTIONS"] ++
        (bindings c.transitions).map Prod.fst ++ ["availableActions", "runWorkflowAction"] := by
  have himport : bodyNames "import \x7b applyWorkflowAction \x7d from '../lib/resource-client';" =
      ["applyWorkflowAction"] := bodyNames_ofList (by decide)
  have hsafe : ∀ indented, (⟨.lineSafe, indented⟩ : Style).escaping = .lineSafe := fun _ => rfl
  have hfield : bodyNames (constant "WORKFLOW_STATE_FIELD"
      (Json.literal (.ofText? (c.workflow.map (·.stateField))))) = ["WORKFLOW_STATE_FIELD"] :=
    bodyNames_constant (by decide) (hsafe false) _ String.toList_ofList
  have hdata : bodyNames (constant "WORKFLOW_ACTIONS"
      (Json.block (.list ((bindings c.transitions).map (·.2.toValue))))) = ["WORKFLOW_ACTIONS"] :=
    bodyNames_constant (by decide) (hsafe true) _ String.toList_ofList
  have hempty : bodyNames "" = [] := by decide
  have hfunctions : (bindings c.transitions).flatMap
      (fun b => (transitionLines names b).flatMap bodyNames) =
        (bindings c.transitions).map Prod.fst := by
    rw [List.map_eq_flatMap]
    refine List.flatMap_congr fun b hb => bodyNames_transitionLines names ?_
    exact mem_bindingNames (List.of_mem_zip hb).1
  have havailable : bodyNames (typed names.language
      r#"export function availableActions(state#{: string}#, roles#{: string[]}# = []) {"#) =
        ["availableActions"] :=
    bodyNames_typed (by cases names.language <;> decide +kernel)
  have hrun : bodyNames (typed names.language
      r#"export function runWorkflowAction(name#{: string}#, action#{: string}#) {"#) =
        ["runWorkflowAction"] :=
    bodyNames_typed (by cases names.language <;> decide +kernel)
  have hcall : bodyNames ("  return applyWorkflowAction(" ++ textLiteral names.entity ++
      ", name, action);") = [] := by
    refine bodyNames_of_head (head?_append (head?_append (c := ' ') (by decide))) (by decide) ?_
    simp only [String.toList_append, List.forall_mem_append]
    exact ⟨⟨by decide, unbroken_textLiteral _⟩, by decide⟩
  have hfilter : bodyNames "  return WORKFLOW_ACTIONS.filter(" = [] ∧
      bodyNames
        "    (t) => t.fromState === state && (!t.allowed || roles.includes(t.allowed))," = [] ∧
      bodyNames "  );" = [] ∧ bodyNames "\x7d" = [] :=
    ⟨bodyNames_ofList (by decide), bodyNames_ofList (by decide), bodyNames_ofList (by decide),
      by decide⟩
  obtain ⟨hopening, htest, hclosing, hend⟩ := hfilter
  -- Only the lines that import, declare or open a function bring in a name.
  unfold workflowActions
  simp only
  rw [List.cons_append, List.cons_append, bodyNames_joinLines]
  simp only [List.flatMap_cons, List.flatMap_append, List.flatMap_nil, List.flatMap_assoc, himport,
    hempty, hfield, hdata, hfunctions, havailable, hopening, htest, hclosing, hend, hrun, hcall,
    List.nil_append, List.append_nil, List.cons_append]

/-- The head of the permissions brings in their name, with or without a type. -/
theorem lineNames_headIn (language : Language) (rest : List Char) :
    lineNames ((headIn language).toList ++ rest) = ["PERMISSIONS"] := by
  cases language with
  | js =>
    have hhead : (headIn .js).toList = declarationHead "PERMISSIONS" := by decide
    rw [hhead, lineNames_declarationHead (by decide)]
  | ts =>
    have hhead : (headIn .ts).toList = "export ".toList ++ ("const ".toList ++
        ("PERMISSIONS".toList ++ ':' :: " Record<string, Record<string, boolean>> = ".toList)) := by
      decide
    rw [hhead]
    simp only [List.append_assoc, List.cons_append]
    exact lineNames_export (by decide) (by decide) (by decide) _

/-- The permissions bring in their constant and the function that looks them up, whatever the passes
make of the roles. -/
theorem bodyNames_permissionActions (names : Names) (c : Contract) :
    bodyNames (permissionActions names c) = ["PERMISSIONS", "can"] := by
  obtain ⟨perms', -, htext⟩ := exists_permissionActions names c
  have hhead : ∀ d ∈ (headIn names.language).toList, isLineBreak d = false := by
    cases names.language <;> decide
  have hsealed : IsSealed (headIn names.language).toList := by
    cases names.language <;> decide +kernel
  have hsplit : (permissionActions names c).toList ++ ['\n'] = (headIn names.language).toList ++
      (write blockStyle 0 (.record (grantEntries perms')) ++ [';']) ++ ['\n'] ++
        (lookupIn names.language ++ ['\n']) := by
    rw [htext]
    simp only [List.append_assoc, List.cons_append, List.nil_append]
  rw [bodyNames, hsplit, topNames_append (.inr List.getLast?_concat),
    topNames_literal hhead hsealed (lineNames_headIn names.language) rfl, topNames_lookupIn]
  rfl

/-- **The names of the module of the actions**: those of its own, and between them the functions of
the transitions. They are read off the text as it is written, line by line. -/
theorem topNames_actionsModule (c : Contract) (language : Language) :
    topNames (actionsModule (.ofContract c language) c).toList =
      namesBefore ++ (bindings c.transitions).map Prod.fst ++ namesBehind := by
  have htext : (actionsModule (.ofContract c language) c).toList =
      (body "crud-actions" (crudActions (.ofContract c language))).text ++ (['\n'] ++
        ((body "workflow-actions" (workflowActions (.ofContract c language) c)).text ++ (['\n'] ++
          (body "permissions" (permissionActions (.ofContract c language) c)).text))) := by
    simp only [actionsModule, wrap, String.toList_append, String.toList_ofList, body, Block.text,
      List.append_assoc]
    rfl
  have hlf : IsWhole ['\n'] := .inr rfl
  rw [htext, topNames_append (isWhole_body _ _), topNames_append hlf,
    topNames_append (isWhole_body _ _), topNames_append hlf, topNames_lf,
    topNames_body (by decide), topNames_body (by decide), topNames_body (by decide),
    bodyNames_crudActions, bodyNames_workflowActions, bodyNames_permissionActions, namesBefore,
    namesBehind]
  simp only [List.nil_append, List.append_assoc, List.cons_append]

/-- No other name shows the word between an action and its state. -/
theorem not_infix_of_mem :
    ∀ name ∈ namesBefore ++ namesBehind, ¬['r', 'o', 'm'] <:+: name.toList := by
  decide

/-- The functions of the transitions are well named: there is one for each transition, in their
order, under the first name that none before it has; the names are written in camel case, and are
no other names that the module of the actions imports or declares. -/
structure IsWellNamed (c : Contract) (language : Language) : Prop where
  transitions : (bindings c.transitions).map Prod.snd = c.transitions
  first : ∀ i : Fin c.transitions.length, ∃ name,
    (bindings c.transitions)[i.val]? = some (name, c.transitions[i]) ∧
      IsFirstFree (((bindings c.transitions).map Prod.fst).take i) (bindingBase c.transitions[i])
        name
  camel : ∀ b ∈ bindings c.transitions, Naming.IsCamel b.1
  names : topNames (actionsModule (.ofContract c language) c).toList =
    namesBefore ++ (bindings c.transitions).map Prod.fst ++ namesBehind
  nodup : (topNames (actionsModule (.ofContract c language) c).toList).Nodup

/-- **The functions of the transitions of every contract are well named**, whatever its actions and
states are called. The program makes the names and does not ask whether they are fit, so that this
has to come from how it makes them. -/
theorem isWellNamed_bindings (c : Contract) (language : Language) : IsWellNamed c language := by
  have hcamel : ∀ b ∈ bindings c.transitions, Naming.IsCamel b.1 := fun b hb =>
    isCamel_of_mem_bindingNames (List.of_mem_zip hb).1
  refine ⟨map_snd_bindings c.transitions, fun i => ?_, hcamel,
    topNames_actionsModule c language, ?_⟩
  · obtain ⟨name, hname, hfirst⟩ :=
      isFirstFree_bindingNames (List.getElem?_eq_getElem i.isLt) []
    refine ⟨name, ?_, by rwa [map_fst_bindings]⟩
    rw [bindings, List.getElem?_zip_eq_some]
    exact ⟨hname, List.getElem?_eq_getElem i.isLt⟩
  · have hnew : ∀ other ∈ namesBefore ++ namesBehind, other ∉ bindingNames [] c.transitions :=
      fun other hother hmem => not_infix_of_mem other hother (infix_of_mem_bindingNames hmem)
    have hperm : (namesBefore ++ bindingNames [] c.transitions ++ namesBehind).Perm
        (namesBefore ++ namesBehind ++ bindingNames [] c.transitions) := by
      rw [List.append_assoc, List.append_assoc]
      exact List.perm_append_comm.append_left namesBefore
    rw [topNames_actionsModule, map_fst_bindings, hperm.nodup_iff, List.nodup_append]
    refine ⟨by decide, (nodup_bindingNames [] c.transitions).1, ?_⟩
    exact fun other hother name hname heq => hnew other hother (heq ▸ hname)

end FormScaffold.View
