import FormScaffold.Proofs.View.Functions

/-! # Comments of generated files

The pages of an entity start with a comment that names it, and above each function of a transition
there is a comment with its states. Whatever the metadata holds, these comments end where they are
meant to.

* **`ClosesAfter`** — the first mark that closes a block comment stands behind a text;
* **`closesAfter_pageHeader`** — the comment of a page is closed by its own mark;
* `lines_flatMap_lf`, **`lines_actions`** — the functions of the transitions, line by line;
* **`keepsComments_of_build`** — the comments of the files of every contract. -/

namespace FormScaffold.View

open Region Text

/-! ## Comments of pages -/

/-- The first mark that closes a block comment stands behind the opening. -/
def ClosesAfter (opening content : List Char) : Prop :=
  (∃ rest, content = opening ++ '*' :: '/' :: rest) ∧ ¬['*', '/'] <:+: opening ++ ['*']

/-- What the comment of a page says about its regions. -/
def headerNote : String :=
  " * Code outside the doctype-ui regions is yours to edit; regions are regenerated.\n "

/-- The comment of a page up to the mark that closes it. -/
def headerOpening (entity kind : String) : String :=
  "/**\n * " ++ commentLine entity ++ (" " ++ kind ++ " view.\n" ++ headerNote)

/-- The header of a page is its comment up to the mark that closes it, and the mark. -/
theorem pageHeader_eq (names : Names) (kind : String) :
    pageHeader names kind = headerOpening names.entity kind ++ "*/\n" := by
  rw [← String.toList_inj]
  simp [pageHeader, headerOpening, headerNote]

/-- **No name of an entity closes the comment of its page**, nor does it with the text around it.
The closing marks in the name are split, and none comes about where the name meets the text around
it. -/
theorem closesAfter_pageHeader (names : Names) {kind : String} (hkind : '/' ∉ kind.toList)
    (rest : List Char) :
    ClosesAfter (headerOpening names.entity kind).toList
      ((pageHeader names kind).toList ++ rest) := by
  refine ⟨⟨'\n' :: rest, ?_⟩, IsUnclosed.not_infix ?_⟩
  · rw [pageHeader_eq, String.toList_append, List.append_assoc]
    rfl
  · -- There is no slash behind the name, and no star before it.
    have hbehind : '/' ∉ (" " ++ kind ++ " view.\n" ++ headerNote).toList ++ ['*'] := by
      simp only [String.toList_append, List.mem_append, not_or]
      refine ⟨⟨⟨⟨by decide, hkind⟩, by decide⟩, ?_⟩, by decide⟩
      rw [headerNote, String.toList_ofList]
      decide
    have hname := isUnclosed_append (isUnclosed_commentLine names.entity)
      (isUnclosed_of_notMem hbehind) (.inr (by simp))
    rw [headerOpening, String.toList_append, String.toList_append, List.append_assoc,
      List.append_assoc]
    exact isUnclosed_append (by decide) hname (.inl (by decide))

/-! ## Comments of transitions -/

/-- Texts without breaks are a line each. -/
theorem lines_flatMap_lf {ls : List String} (h : ∀ l ∈ ls, ∀ c ∈ l.toList, isLineBreak c = false) :
    lines (ls.flatMap fun l => l.toList ++ ['\n']) = ls.map fun l => l.toList ++ ['\n'] := by
  induction ls with
  | nil => rfl
  | cons l ls ih =>
    obtain ⟨hl, hls⟩ := List.forall_mem_cons.1 h
    rw [List.flatMap_cons, lines_append_of_isWhole (.inr List.getLast?_concat), lines_lf hl,
      ih hls, List.map_cons, List.singleton_append]

/-- Lines that end in line feeds are whole. -/
theorem isWhole_flatMap_lf (ls : List String) :
    IsWhole (ls.flatMap fun l => l.toList ++ ['\n']) := by
  induction ls with
  | nil => exact .inl rfl
  | cons l ls ih => exact isWhole_append (.inr List.getLast?_concat) ih

/-- The functions of transitions, line by line, with their comments. -/
def functionsOf (names : Names) (ts : List Transition) : List (List Char) :=
  ((bindings ts).flatMap (functionLines names)).map fun l => l.toList ++ ['\n']

/-- The functions stand on lines of their own in the part that drives the workflow. -/
theorem exists_closed_workflowActions (names : Names) (c : Contract) :
    ∃ front back, IsWhole front ∧ closed (workflowActions names c).toList =
      front ++ (((bindings c.transitions).flatMap (functionLines names)).flatMap fun l =>
        l.toList ++ ['\n']) ++ back := by
  have hfunctions : (bindings c.transitions).flatMap (transitionLines names) =
      (bindings c.transitions).flatMap (functionLines names) :=
    List.flatMap_congr fun b hb =>
      transitionLines_eq names (mem_bindingNames (List.of_mem_zip hb).1)
  obtain ⟨front, l, m, back, htext⟩ : ∃ front l m back, workflowActions names c =
      joinLines (front ++ (bindings c.transitions).flatMap (transitionLines names) ++
        l :: m :: back) := ⟨_, _, _, _, rfl⟩
  have hne : (joinLines (l :: m :: back)).toList ≠ [] := by
    simp [joinLines, String.toList_intercalate]
  refine ⟨_, closed (joinLines (l :: m :: back)).toList, isWhole_flatMap_lf front, ?_⟩
  rw [htext, joinLines_append, closed_append hne, hfunctions, List.flatMap_map,
    List.flatMap_append]

/-- **The functions of the transitions are lines of the module of the actions.** Nothing in the
names of the workflow reaches over the end of its line. -/
theorem lines_actions (names : Names) (c : Contract) :
    ∃ front back, lines (documentText (actionsBlocks names c)) =
      front ++ functionsOf names c.transitions ++ back := by
  have hunbroken : ∀ l ∈ (bindings c.transitions).flatMap (functionLines names),
      ∀ d ∈ l.toList, isLineBreak d = false := by
    intro l hl
    obtain ⟨b, hb, hl⟩ := List.mem_flatMap.1 hl
    exact unbroken_functionLines names (mem_bindingNames (List.of_mem_zip hb).1) l hl
  obtain ⟨front, back, hfront, hclosed⟩ := exists_closed_workflowActions names c
  have hbefore : IsWhole ((body "crud-actions" (crudActions names)).text ++ ['\n'] ++
      beginLine "workflow-actions" ++ front) :=
    isWhole_append (isWhole_append (isWhole_append (isWhole_body _ _) (.inr rfl))
      (isWhole_beginLine _)) hfront
  have htext : documentText (actionsBlocks names c) =
      (body "crud-actions" (crudActions names)).text ++ ['\n'] ++ beginLine "workflow-actions" ++
        front ++ ((((bindings c.transitions).flatMap (functionLines names)).flatMap fun l =>
          l.toList ++ ['\n']) ++ (back ++ endLine "workflow-actions" ++ ['\n'] ++
            (body "permissions" (permissionActions names c)).text)) := by
    have hbody : (body "workflow-actions" (workflowActions names c)).text =
        beginLine "workflow-actions" ++ (closed (workflowActions names c).toList ++
          endLine "workflow-actions") := by
      rw [body, Block.text, between_eq]
    have hlf : (manual "\n").text = ['\n'] := rfl
    simp only [documentText, actionsBlocks, List.flatMap_cons, List.flatMap_nil, hbody, hclosed,
      hlf, List.append_assoc, List.append_nil]
  -- What stands before the functions ends a line, so that they are cut apart from it.
  rw [htext, lines_append_of_isWhole hbefore, lines_append_of_isWhole (isWhole_flatMap_lf _),
    lines_flatMap_lf hunbroken]
  exact ⟨_, _, (List.append_assoc _ _ _).symm⟩

/-! ## Files -/

/-- The characters that end a line of a script. -/
def scriptBreaks : List Char := ['\n', '\r', '\u2028', '\u2029']

/-- What ends a line of a script breaks lines here as well. -/
theorem isLineBreak_of_mem_scriptBreaks : ∀ d ∈ scriptBreaks, isLineBreak d = true := by decide

/-- The comments of a file with text of the metadata in them end where they are meant to: that of a
page at its own mark, and those of the transitions with their lines, each above its function. -/
def KeepsComments (c : Contract) (language : Language) : FileKind → List Char → Prop
  | .list, text => ClosesAfter (headerOpening c.entity "list").toList text
  | .form, text => ClosesAfter (headerOpening c.entity "form").toList text
  | .actions, text => ∃ front back, lines text =
      front ++ functionsOf (.ofContract c language) c.transitions ++ back
  | _, _ => True

/-- **Every kind of file keeps its comments**, for each contract, layout and language. In all other
files no text of the metadata stands in a comment. -/
theorem keepsComments_blocks (c : Contract) (layout : Layout) (language : Language)
    (k : FileKind) : KeepsComments c language k (documentText (k.blocks c layout language)) := by
  cases k
  case list => exact closesAfter_pageHeader (.ofContract c language) (by decide) _
  case form => exact closesAfter_pageHeader (.ofContract c language) (by decide) _
  case actions => exact lines_actions (.ofContract c language) c
  all_goals exact trivial

/-- **Text of the metadata cannot leave its comment.** When a contract was built, its rendering in
any preset and language succeeds unless a field of a child table has no key for its name. In the
pages, the first mark that closes a block comment is then that of the comment at the top, and the
actions have for each transition the line of its comment, in which no line ends, and behind it the
lines of its function. -/
theorem keepsComments_of_build {source : Source} {entity : String} {wanted : Option String}
    {c : Contract} (h : Contract.build source entity wanted = .ok c) {style word : String}
    {preset : Preset} {language : Language} (hstyle : resolvePreset (some style) = .ok preset)
    (hword : Language.ofWord? word = some language) (withShared : Bool) :
    ((∃ files, render c style word withShared = .ok files) ↔
        ∀ t ∈ c.childTables, ∀ f ∈ t.2.fields, f.name.isKey = true) ∧
      (bindings c.transitions).map Prod.snd = c.transitions ∧
      (∀ t ∈ c.transitions, ∀ d ∈ (transitionComment t).toList,
        isLineBreak d = false ∧ d ∉ scriptBreaks) ∧
      ∀ files, render c style word withShared = .ok files →
        List.Forall₂ (fun k a => a.path = k.path (.ofContract c language) ∧
          KeepsComments c language k a.content.toList) (FileKind.all withShared) files := by
  refine ⟨(isIntact_of_build h hstyle hword withShared).1, map_snd_bindings c.transitions,
    fun t _ d hd => ?_, fun files hfiles => ?_⟩
  · have hunbroken := unbroken_transitionComment t d hd
    refine ⟨hunbroken, fun hmem => ?_⟩
    rw [isLineBreak_of_mem_scriptBreaks d hmem] at hunbroken
    exact absurd hunbroken (by decide)
  · obtain ⟨layout, hdocuments⟩ := isDocument_of_render h hfiles hword
    refine hdocuments.imp fun k a ha => ⟨ha.path, ?_⟩
    rw [ha.content]
    exact keepsComments_blocks c layout language k

/-- A source whose entity and states have closing marks and a line separator in their names. -/
def closingSource : Source :=
  .ofSchemas (.record [("Note */ alert() /*", .record [
    ("fields", .list [.record [("fieldname", .text "title"), ("fieldtype", .text "Data")]]),
    ("workflow", .record [("transitions", .list [.record [
      ("state", .text "Open\u2028*/"), ("action", .text "Go"),
      ("next_state", .text "**//")]])])])])

/-- They stay in their comments. -/
theorem keepsComments_of_build_closing :
    ∃ c files, Contract.build closingSource "Note */ alert() /*" (some "plain") = .ok c ∧
      (commentLine c.entity, c.transitions.map transitionComment) =
        ("Note * / alert() /*", ["// Open * / -> ** //"]) ∧
      render c "dense" "ts" true = .ok files ∧
      List.Forall₂ (fun k a => a.path = k.path (.ofContract c .ts) ∧
        KeepsComments c .ts k a.content.toList) (FileKind.all true) files := by
  obtain ⟨c, h, heq⟩ := exists_of_map_toOption
    (show (Contract.build closingSource "Note */ alert() /*" (some "plain")).toOption.map (fun c =>
      ((commentLine c.entity, c.transitions.map transitionComment), c.childTables.length)) =
        some (("Note * / alert() /*", ["// Open * / -> ** //"]), 0) by decide +kernel)
  obtain ⟨htexts, htables⟩ := Prod.mk.inj heq
  obtain ⟨hrenders, -, -, hkeeps⟩ :=
    keepsComments_of_build h (resolvePreset_name .dense) (ofWord?_word .ts) true
  obtain ⟨files, hfiles⟩ := hrenders.2 (by simp [List.length_eq_zero_iff.1 htables])
  exact ⟨c, files, h, htexts, hfiles, hkeeps files hfiles⟩

end FormScaffold.View
