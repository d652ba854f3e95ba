import FormScaffold.Proofs.View.Rendering
import Mathlib.Algebra.GroupWithZero.Nat

/-! # Sizes of rendered files

A rendered file is little longer than the data of the contract that is written into it.

* `AtMost` — bounds for lengths, which follow how a text is put together;
* `FileKind.data` — the texts that a file takes from the contract;
* **`atMost_content`** — the length of every file is bounded by that of its data. -/

namespace FormScaffold.View

open Region Text

/-! ## Templates -/

/-- Settling annotations adds nothing. -/
theorem length_annotate_le (language : Language) (cs : List Char) :
    (annotate language cs).length ≤ cs.length := by
  induction cs using annotate.induct with
  | case1 => simp [annotate]
  | case2 rest inside left hclose ih =>
    obtain ⟨hrest, -⟩ := untilClose_eq_some hclose
    rw [annotate_of_close language hclose, hrest]
    cases language <;> simp <;> omega
  | case3 rest hclose ih =>
    rw [annotate_of_open language hclose]
    simp only [List.length_cons] at ih ⊢
    omega
  | case4 c rest hopen ih =>
    rw [annotate.eq_3 language c rest hopen]
    simp only [List.length_cons]
    omega

/-- A replacement makes a text longer by as much as the new piece is longer than the old. -/
theorem length_replaceFrom_le {old new : List Char} {k : Nat} (hk : 0 < k)
    (hold : 0 < old.length) (hnew : new.length ≤ k * old.length) (skip : Nat) (cs : List Char) :
    (replaceFrom old new skip cs).length ≤ k * (cs.length - skip) := by
  induction cs generalizing skip with
  | nil => simp [replaceFrom]
  | cons c cs ih =>
    cases skip with
    | succ skip =>
      rw [List.length_cons, Nat.add_sub_add_right]
      exact ih skip
    | zero =>
      rw [replaceFrom]
      split
      · rename_i hprefix
        have hle := (List.isPrefixOf_iff_prefix.1 hprefix).length_le
        rw [List.length_cons] at hle
        -- The characters of the old text pay for those of the new one.
        have hall : k * old.length + k * (cs.length - (old.length - 1)) = k * (cs.length + 1) := by
          rw [← Nat.mul_add]
          congr 1
          omega
        have hrest := ih (old.length - 1)
        rw [List.length_append, List.length_cons, Nat.sub_zero, ← hall]
        omega
      · have hrest := ih 0
        rw [List.length_cons, List.length_cons, Nat.sub_zero, Nat.mul_succ]
        rw [Nat.sub_zero] at hrest
        omega

/-! ## Bounds -/

/-- A text has at most that many characters. -/
def AtMost (n : Nat) (s : String) : Prop := s.toList.length ≤ n

namespace AtMost

variable {m n : Nat} {s t : String}

/-- A larger bound holds as well. -/
theorem mono (hs : AtMost m s) (h : m ≤ n) : AtMost n s := Nat.le_trans hs h

/-- The bound of a text that nothing is known about. -/
theorem self (s : String) : AtMost s.toList.length s := Nat.le_refl _

/-- Characters within a bound are a text within it. -/
theorem ofList {cs : List Char} (h : cs.length ≤ n) : AtMost n (String.ofList cs) := by
  rwa [AtMost, String.toList_ofList]

/-- The bounds of two texts one behind the other add up. -/
theorem append (hs : AtMost m s) (ht : AtMost n t) : AtMost (m + n) (s ++ t) := by
  rw [AtMost, String.toList_append, List.length_append]
  exact Nat.add_le_add hs ht

/-- The bounds of lines add up, with one line feed more. -/
theorem joinLines_append {ls ls' : List String} (h : AtMost m (joinLines ls))
    (h' : AtMost n (joinLines ls')) : AtMost (m + n + 1) (joinLines (ls ++ ls')) := by
  by_cases hls : ls = []
  · rw [hls, List.nil_append]
    exact mono h' (by omega)
  · by_cases hls' : ls' = []
    · rw [hls', List.append_nil]
      exact mono h (by omega)
    · have hsplit : joinLines (ls ++ ls') = joinLines ls ++ "\n" ++ joinLines ls' :=
        String.intercalate_append_of_ne_nil hls hls'
      rw [hsplit]
      exact mono ((h.append (ofList (n := 1) (by decide))).append h') (by omega)

/-- No lines are no characters. -/
theorem joinLines_nil : AtMost 0 (joinLines []) := Nat.le_refl 0

/-- A line adds its bound and one line feed. -/
theorem joinLines_cons {ls : List String} (hs : AtMost m s) (ht : AtMost n (joinLines ls)) :
    AtMost (m + n + 1) (joinLines (s :: ls)) := by
  have hone : AtMost m (joinLines [s]) := by
    rwa [joinLines, String.intercalate_singleton]
  -- The lines of the whole are found last: splitting them in two has many solutions.
  exact (joinLines_append hone ht :)

/-- A constant adds its keyword, the sign for its value and a semicolon. -/
theorem constant (hs : AtMost m s) (ht : AtMost n t) : AtMost (m + n + 17) (constant s t) := by
  unfold View.constant
  have hhead : AtMost 13 "export const " := .ofList (by decide)
  have hequals : AtMost 3 " = " := .ofList (by decide)
  have hend : AtMost 1 ";" := .ofList (by decide)
  exact mono ((((hhead.append hs).append hequals).append ht).append hend) (by omega)

/-- The markers of a region are two lines with its name. -/
theorem wrap (hs : AtMost m s) (ht : AtMost n t) : AtMost (2 * m + n + 49) (wrap s t) := by
  have htags : beginTag.length + endTag.length + 2 = 48 := by decide
  have hclosed : (closed t.toList).length ≤ t.toList.length + 1 := by
    unfold closed
    split <;> simp
  refine ofList ?_
  simp only [AtMost, between, List.length_append, List.length_cons, List.length_nil] at hs ht ⊢
  omega

/-- A template gets no longer when its annotations are settled, in either language. -/
theorem typed {language : Language} (hs : AtMost n s) : AtMost n (typed language s) :=
  ofList (Nat.le_trans (length_annotate_le language _) hs)

/-- Writing types into heads makes a text at most three times as long. -/
theorem declarePermissions {language : Language} (hs : AtMost n s) :
    AtMost (3 * n) (declarePermissions language s) := by
  cases language with
  | js => exact mono hs (by omega)
  | ts =>
    refine ofList (Nat.le_trans ?_ (Nat.mul_le_mul_left 3 hs))
    exact length_replaceFrom_le (by decide) (by decide) (by decide) 0 _

end AtMost

/-! ## Files -/

/-- The characters of a value in generated code, in a block or on one line. -/
def valueText (indented : Bool) (v : Value) : List Char := Json.write ⟨.lineSafe, indented⟩ 0 v

/-- A value on several lines is as long as it is written. -/
theorem AtMost.block (v : Value) : AtMost (valueText true v).length (Json.block v) :=
  .ofList (Nat.le_refl _)

/-- A value on one line is as long as it is written. -/
theorem AtMost.literal (v : Value) : AtMost (valueText false v).length (Json.literal v) :=
  .ofList (Nat.le_refl _)

/-- The line of a route is bounded by its texts, with fifty characters around them. -/
theorem AtMost.routeLine (path name : String) {component : String} {n : Nat}
    (h : AtMost n component) :
    AtMost ((valueText false (.text path)).length + (valueText false (.text name)).length + n + 50)
      (routeLine path name component) := by
  unfold View.routeLine
  have hpath : AtMost 10 "  \x7b path: " := .ofList (by decide)
  have hname : AtMost 8 ", name: " := .ofList (by decide)
  have hcomponent : AtMost 13 ", component: " := .ofList (by decide)
  have hend : AtMost 3 " \x7d," := .ofList (by decide)
  have hall := (((((hpath.append (.literal (.text path))).append hname).append
    (.literal (.text name))).append hcomponent).append h).append hend
  exact mono hall (by omega)

/-- The texts that the actions of an entity hold, its transitions apart. -/
def actionData (names : Names) (c : Contract) : List (List Char) :=
  [names.slug.toList, valueText false (.ofText? (c.workflow.map (·.stateField))),
    valueText true (.list ((bindings c.transitions).map (·.2.toValue))),
    valueText false (.text names.entity), valueText true (c.permissions.toValue Grants.toValue)]

/-- The texts that a file takes from the contract, each as often as it stands there. -/
def FileKind.data (names : Names) (c : Contract) (layout : Layout) : FileKind → List (List Char)
  | client | formObject | rules | notices => []
  | list =>
    [(commentLine names.entity).toList, valueText true (.list (c.columns.map columnSpec)),
      valueText true (.list (c.filters.map Filter.toValue)), valueText true (filterDefaults c),
      valueText true (listConfig names c layout), names.component.toList]
  | form =>
    [(commentLine names.entity).toList, names.slug.toList,
      valueText true (.list (c.sections.map sectionSpec)),
      valueText true (c.childTables.toValue childSpec), valueText true (workflowSpec c),
      valueText true (formConfig names c layout), names.component.toList]
  | resource =>
    [valueText false (.text names.entity), valueText false (.list (listFields c))]
  | behavior =>
    [valueText false (.text names.entity),
      valueText true (.list (c.behaviors.map Behavior.toValue)),
      valueText false (.ofTexts (eventsOf c (·.formEvents))),
      valueText false (.ofTexts (eventsOf c (·.fieldEvents)))]
  | depends =>
    [valueText true (baseStates c.fields), valueText true ((rulesOf c.fields).toValue id),
      valueText true (childStates c), valueText true (childRules c)]
  | realtime => [valueText false (.text c.topic)]
  | actions =>
    (joinLines ((bindings c.transitions).flatMap (transitionLines names))).toList ::
      actionData names c
  | routes =>
    [names.slug.toList, names.slug.toList, valueText false (.text (route names)),
      valueText false (.text (names.slug ++ "-list")),
      valueText false (.text (route names ++ "/new")),
      valueText false (.text (names.slug ++ "-new")),
      valueText false (.text (route names ++ "/:name")),
      valueText false (.text (names.slug ++ "-form"))]

/-- The length of the data in a file. -/
def FileKind.dataLength (names : Names) (c : Contract) (layout : Layout) (k : FileKind) : Nat :=
  ((k.data names c layout).map List.length).sum

set_option maxRecDepth 20000 in
/-- The templates, with room to spare. -/
theorem atMost_templates :
    (AtMost 9000 listHead ∧ AtMost 9000 listTail ∧ AtMost 9000 formHead ∧ AtMost 9000 formTail) ∧
      (AtMost 1000 stateTemplate ∧ AtMost 1000 behaviorTemplate ∧ AtMost 1000 crudTemplate ∧
        AtMost 1000 permissionsHead ∧ AtMost 1000 canTemplate) ∧
      AtMost 9000 clientTemplate ∧ AtMost 9000 formObjectTemplate ∧ AtMost 9000 rulesTemplate ∧
        AtMost 9000 noticesTemplate := by
  unfold listHead listTail formHead formTail stateTemplate behaviorTemplate crudTemplate
    permissionsHead canTemplate clientTemplate formObjectTemplate rulesTemplate noticesTemplate
  refine ⟨⟨?_, ?_, ?_, ?_⟩, ⟨?_, ?_, ?_, ?_, ?_⟩, ?_, ?_, ?_, ?_⟩ <;>
    with_reducible exact .ofList (by decide)

/-- **Shared libraries are bounded** by a number of their own: nothing of a contract stands in them.
-/
theorem atMost_sharedFile {title template : String} (htitle : AtMost 100 title)
    (htemplate : AtMost 9000 template) (language : Language) :
    AtMost 30000 (wrap sharedRegion (sharedHeader title ++ typed language template)) := by
  apply AtMost.mono
  · unfold sharedHeader sharedRegion
    refine .wrap (m := 100) ?_ (.append (.append (n := 100) (.append (m := 100) ?_ htitle) ?_)
      (.typed htemplate)) <;>
      with_reducible exact .ofList (by decide)
  · decide

/-- Shared files take nothing from the contract. -/
theorem atMost_shared (names : Names) (c : Contract) (layout : Layout) (language : Language) :
    List.Forall₂ (fun k a => AtMost (30000 + 6 * k.dataLength names c layout) a.content)
      FileKind.shared (sharedArtifacts language) := by
  obtain ⟨-, -, hclient, hformObject, hrules, hnotices⟩ := atMost_templates
  refine .cons (atMost_sharedFile ?_ hclient _) (.cons (atMost_sharedFile ?_ hformObject _)
    (.cons (atMost_sharedFile ?_ hrules _) (.cons (atMost_sharedFile ?_ hnotices _) .nil))) <;>
    with_reducible exact .ofList (by decide)

/-- **The files of an entity are bounded** by what they take from the contract. Each piece of data
is made at most six times as long by its escapes and its place in the file. -/
theorem atMost_entity (c : Contract) (layout : Layout) (language : Language) :
    List.Forall₂ (fun k a =>
        AtMost (30000 + 6 * k.dataLength (.ofContract c language) c layout) a.content)
      FileKind.ofEntity (entityArtifacts c layout language) := by
  obtain ⟨⟨_, _, _, _⟩, ⟨_, _, _, _, _⟩, -⟩ := atMost_templates
  refine .cons ?_ (.cons ?_ (.cons ?_ (.cons ?_ (.cons ?_ (.cons ?_ (.cons ?_ (.cons ?_
    .nil))))))) <;>
  · apply AtMost.mono
    · simp only [listPage, formPage, moduleFile, Artifact.ofContent, listContent, formContent,
        resourceModule, behaviorModule, dependsModule, realtimeModule, actionsModule, routerModule,
        pageHeader, listImports, formImports, listComponent, formComponent, crudActions,
        workflowActions, permissionActions, textLiteral]
      -- The bound follows the text, piece by piece.
      repeat' with_reducible first
        | assumption
        | exact AtMost.block _
        | exact AtMost.literal _
        | apply AtMost.wrap
        | apply AtMost.typed
        | apply AtMost.declarePermissions
        | apply AtMost.constant
        | apply AtMost.routeLine
        | apply AtMost.joinLines_nil
        | apply AtMost.joinLines_cons
        | apply AtMost.joinLines_append
        | apply AtMost.append
        | exact AtMost.ofList (n := 200) (by decide)
        | exact AtMost.self _
    · simp only [FileKind.dataLength, FileKind.data, actionData, List.map_cons, List.map_nil,
        List.sum_cons, List.sum_nil]
      omega

/-- **A file is little longer than its data.** What it has beside the data are templates and names
of the program, whose lengths are known. -/
theorem atMost_content (c : Contract) (layout : Layout) (language : Language) (withShared : Bool) :
    List.Forall₂ (fun k a =>
        AtMost (30000 + 6 * k.dataLength (.ofContract c language) c layout) a.content)
      (FileKind.all withShared) ((if withShared then sharedArtifacts language else []) ++
        entityArtifacts c layout language) := by
  have hentity := atMost_entity c layout language
  cases withShared with
  | false => exact hentity
  | true => exact List.rel_append (atMost_shared _ c layout language) hentity

end FormScaffold.View
