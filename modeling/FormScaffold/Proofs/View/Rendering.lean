import FormScaffold.Proofs.Contract.Plain
import FormScaffold.Proofs.View.Documents

/-! # Rendered files keep their markers

Whatever the metadata of an entity says, the files of its contract have the regions of their kinds
and no others.

* **`isDocument_artifacts`** — the files of a contract are the documents of their kinds;
* `forall_keptNames_iff` — a contract that was built is rendered unless a child table has a field
  whose name is no key;
* **`isIntact_of_build`** — every file of its rendering scans without problems into the regions of
  its kind, breaking its lines with line feeds alone;
* **`renders_of_build`** — the dependency expressions of a contract can be read, each that cannot
  leaves a warning, and every preset and language renders the contract, unless a child table has a
  field whose name is no key;
* `not_renders_listed` — a contract that is not rendered. -/

namespace FormScaffold.View

open Region Text

/-! ## Documents -/

/-- The shared libraries are documents of their blocks, at the paths of their kinds. -/
theorem isDocument_shared (c : Contract) (layout : Layout) (language : Language) :
    List.Forall₂ (fun k a => IsDocument (k.blocks c layout language)
      (k.path (.ofContract c language)) a) FileKind.shared (sharedArtifacts language) := by
  have hcontent : ∀ f : SharedFile, (f.content language).toList =
      documentText (sharedBlocks language f.title f.template) := by
    intro f
    simp [SharedFile.content, wrap, documentText, sharedBlocks, body, Block.text]
  exact .cons ⟨rfl, hcontent _, rfl⟩ (.cons ⟨rfl, hcontent _, rfl⟩ (.cons ⟨rfl, hcontent _, rfl⟩
    (.cons ⟨rfl, hcontent _, rfl⟩ .nil)))

/-- The text of a file of an entity is that of its blocks. -/
theorem isDocument_entity {c : Contract} (h : ∀ t ∈ c.transitions, t.IsNamed) (layout : Layout)
    (language : Language) :
    List.Forall₂ (fun k a => IsDocument (k.blocks c layout language)
      (k.path (.ofContract c language)) a) FileKind.ofEntity
      (entityArtifacts c layout language) := by
  have hfile : ∀ (k : FileKind) (content : String) (warnings : List ViewWarning),
      content.toList = documentText (k.blocks c layout language) →
      IsDocument (k.blocks c layout language) (k.path (.ofContract c language))
        (.ofContent (k.path (.ofContract c language)) content warnings) := by
    intro k content warnings hcontent
    refine isDocument_ofContent (isProper_blocks h layout language k) ?_ hcontent _ _
    rw [documentNames_blocks]
    exact nodup_regions k
  -- The contents are the texts of the blocks one after the other, file by file.
  refine .cons (hfile .list _ _ ?_) (.cons (hfile .form _ _ ?_) (.cons (hfile .resource _ _ ?_)
    (.cons (hfile .behavior _ _ ?_) (.cons (hfile .depends _ _ ?_)
    (.cons (hfile .realtime _ _ ?_) (.cons (hfile .actions _ _ ?_)
    (.cons (hfile .routes _ _ ?_) .nil)))))))
  · simp [listContent, wrap, FileKind.blocks, documentText, listBlocks, body, manual, Block.text]
  · simp [formContent, wrap, FileKind.blocks, documentText, formBlocks, body, manual, Block.text]
  · simp [resourceModule, wrap, FileKind.blocks, documentText, resourceBlocks, body, Block.text]
  · simp [behaviorModule, wrap, FileKind.blocks, documentText, behaviorBlocks, body, Block.text]
  · simp [dependsModule, wrap, FileKind.blocks, documentText, dependsBlocks, body, Block.text]
  · simp [realtimeModule, wrap, FileKind.blocks, documentText, realtimeBlocks, body, Block.text]
  · simp [actionsModule, wrap, FileKind.blocks, documentText, actionsBlocks, body, manual,
      Block.text]
  · simp [routerModule, wrap, FileKind.blocks, documentText, routesBlocks, body, Block.text]

/-- **The files of a contract are the documents of their kinds.** The content of each is the text of
its blocks, and it owns the regions of the blocks. -/
theorem isDocument_artifacts {c : Contract} (h : ∀ t ∈ c.transitions, t.IsNamed) (layout : Layout)
    (language : Language) (withShared : Bool) :
    List.Forall₂ (fun k a => IsDocument (k.blocks c layout language)
      (k.path (.ofContract c language)) a) (FileKind.all withShared)
      ((if withShared then sharedArtifacts language else []) ++
        entityArtifacts c layout language) := by
  have hentity := isDocument_entity h layout language
  cases withShared with
  | false => exact hentity
  | true => exact List.rel_append (isDocument_shared c layout language) hentity

/-! ## Rendering -/

/-- The files of an entity are rendered when all names that keep something are keys; else a name
is at fault. -/
theorem renderEntity_eq (c : Contract) (layout : Layout) (language : Language) :
    renderEntity c layout language =
      if (keptNames c).all Value.isKey then .ok (entityArtifacts c layout language)
      else .error (.fault .notKey) := by
  have hnames : ∀ vs : List Value, ((vs.mapM Value.key).mapError Failure.fault >>= fun _ =>
      pure (entityArtifacts c layout language)) =
        if vs.all Value.isKey then .ok (entityArtifacts c layout language)
        else .error (.fault .notKey) := by
    intro vs
    induction vs with
    | nil => rfl
    | cons v vs ih =>
      rw [List.mapM_cons, List.all_cons, Value.key]
      cases v.isKey with
      | false => rfl
      | true =>
        simp only [if_true, Bool.true_and]
        rw [← ih]
        show ((vs.mapM Value.key >>= fun rest => pure (v :: rest)).mapError _ >>= _) = _
        cases vs.mapM Value.key <;> rfl
  exact hnames (keptNames c)

/-- A contract is rendered in a layout and a language that exist when all names that keep something
are keys. -/
theorem render_eq (c : Contract) {style word : String} {preset : Preset} {language : Language}
    (hstyle : resolvePreset (some style) = .ok preset)
    (hword : Language.ofWord? word = some language) (withShared : Bool) :
    render c style word withShared =
      if (keptNames c).all Value.isKey then
        .ok ((if withShared then sharedArtifacts language else []) ++
          entityArtifacts c preset.layout language)
      else .error (.fault .notKey) := by
  have hlanguage : Language.check word = .ok language := by rw [Language.check, hword]
  have hlayout : layoutOf style = .ok preset.layout := by rw [layoutOf, hstyle]
  unfold render
  rw [hlanguage, hlayout]
  show (renderEntity c preset.layout language >>= fun files => _) = _
  rw [renderEntity_eq]
  split <;> rfl

/-- Rendering in a layout and a language that exist succeeds when all names that keep something are
keys. -/
theorem render_eq_ok {c : Contract} (hkeys : ∀ v ∈ keptNames c, v.isKey = true)
    {style word : String} {preset : Preset} {language : Language}
    (hstyle : resolvePreset (some style) = .ok preset)
    (hword : Language.ofWord? word = some language) (withShared : Bool) :
    render c style word withShared = .ok ((if withShared then sharedArtifacts language else []) ++
      entityArtifacts c preset.layout language) := by
  rw [render_eq c hstyle hword, if_pos (List.all_eq_true.2 hkeys)]

/-- Many contracts are rendered in a layout and a language that exist when all names that keep
something are keys. -/
theorem renderEach_eq (cs : List Contract) {style word : String} {preset : Preset}
    {language : Language} (hstyle : resolvePreset (some style) = .ok preset)
    (hword : Language.ofWord? word = some language) :
    renderEach (cs.map .ok) style word =
      if cs.all fun c => (keptNames c).all Value.isKey then
        .ok (sharedArtifacts language ++
          (cs.map fun c => entityArtifacts c preset.layout language).flatten)
      else .error (.fault .notKey) := by
  have hlanguage : Language.check word = .ok language := by rw [Language.check, hword]
  have hlayout : layoutOf style = .ok preset.layout := by rw [layoutOf, hstyle]
  -- The first contract with a name that is no key stops the rendering, whatever the others are.
  have hfiles : ∀ cs : List Contract,
      ((cs.map Except.ok).mapM fun built => do
        let c ← built
        renderEntity c (← layoutOf style) language) =
      if cs.all fun c => (keptNames c).all Value.isKey then
        .ok (cs.map fun c => entityArtifacts c preset.layout language)
      else .error (.fault .notKey) := by
    intro cs
    induction cs with
    | nil => rfl
    | cons c cs ih =>
      rw [List.map_cons, List.mapM_cons, ih, hlayout, List.all_cons]
      show (renderEntity c preset.layout language >>= fun files => _) = _
      rw [renderEntity_eq]
      cases (keptNames c).all Value.isKey with
      | false => rfl
      | true => cases cs.all fun c => (keptNames c).all Value.isKey <;> rfl
  rw [renderEach, hlanguage]
  refine (congrArg (· >>= fun own => pure (sharedArtifacts language ++ own.flatten))
    (hfiles cs)).trans ?_
  split <;> rfl

/-- The names of the form and of the list are keys in every contract that is built, so that only
child tables can have others. -/
theorem forall_keptNames_iff {source : Source} {entity : String} {wanted : Option String}
    {c : Contract} (h : Contract.build source entity wanted = .ok c) :
    (∀ v ∈ keptNames c, v.isKey = true) ↔
      ∀ t ∈ c.childTables, ∀ f ∈ t.2.fields, f.name.isKey = true := by
  obtain ⟨-, preset, own, tables, warnings, -, hown, -, -, rfl⟩ := build_eq_ok.1 h
  obtain ⟨raw, -, hraw⟩ := bind_eq_ok.1 hown
  replace hraw := mapError_eq_ok.1 hraw
  have hkeyed := (areKeyed_of_ownParts hraw).names
  obtain ⟨hform, -, -⟩ := describes_of_ownParts hraw
  obtain ⟨_, _, _, _, -, -, -, hfilters, -⟩ := exists_of_ownParts hraw
  constructor
  · intro hall t ht f hf
    refine hall f.name (List.mem_append_right _ (List.mem_flatMap.2 ⟨t, ht, ?_⟩))
    exact List.mem_map_of_mem hf
  · -- Filters and form fields are named by data rows, which have keys for names.
    intro htables v hv
    rcases List.mem_append.1 hv with hv | hv
    · rcases List.mem_append.1 hv with hv | hv
      · obtain ⟨f, hf, rfl⟩ := List.mem_map.1 hv
        obtain ⟨row, hrow, hname, -⟩ :=
          exists_of_mem_forall₂ (forall₂_listFilters hfilters) (List.mem_of_mem_filter hf)
        rw [hname]
        exact hkeyed row (List.mem_of_mem_filter hrow)
      · obtain ⟨f, hf, rfl⟩ := List.mem_map.1 hv
        obtain ⟨row, hrow, hdescribes⟩ := exists_of_mem_forall₂ hform hf
        rw [hdescribes.name]
        exact hkeyed row hrow
    · obtain ⟨t, ht, hv⟩ := List.mem_flatMap.1 hv
      obtain ⟨f, hf, rfl⟩ := List.mem_map.1 hv
      exact htables t ht f hf

/-- A contract without child tables is rendered. -/
theorem forall_keptNames_of_nil {source : Source} {entity : String} {wanted : Option String}
    {c : Contract} (h : Contract.build source entity wanted = .ok c) (hnil : c.childTables = []) :
    ∀ v ∈ keptNames c, v.isKey = true :=
  (forall_keptNames_iff h).2 (by simp [hnil])

/-- Every preset has a name of its own. -/
theorem resolvePreset_name (p : Preset) : resolvePreset (some p.name) = .ok p := by
  cases p <;> decide

/-- Every language has a word of its own. -/
theorem ofWord?_word (language : Language) : Language.ofWord? language.word = some language := by
  cases language <;> decide

/-- The files of a rendering are the documents of their kinds. -/
theorem isDocument_of_render {source : Source} {entity : String} {wanted : Option String}
    {c : Contract} (h : Contract.build source entity wanted = .ok c) {style word : String}
    {withShared : Bool} {files : List Artifact}
    (hfiles : render c style word withShared = .ok files) {language : Language}
    (hword : Language.ofWord? word = some language) :
    ∃ layout, List.Forall₂ (fun k a => IsDocument (k.blocks c layout language)
      (k.path (.ofContract c language)) a) (FileKind.all withShared) files := by
  obtain ⟨language', hlanguage, hfiles⟩ := bind_eq_ok.1 hfiles
  obtain ⟨layout, -, hfiles⟩ := bind_eq_ok.1 hfiles
  obtain ⟨own, hentity, hok⟩ := bind_eq_ok.1 hfiles
  rw [Language.check, hword] at hlanguage
  obtain rfl : language = language' := Except.ok.inj hlanguage
  rw [renderEntity_eq] at hentity
  split at hentity
  · refine ⟨layout, ?_⟩
    rw [← Except.ok.inj hok, ← Except.ok.inj hentity]
    exact isDocument_artifacts (isNamed_of_build h) layout language withShared
  · exact absurd hentity (by simp)

/-- Rendering in a language that does not exist fails. -/
theorem ofWord?_of_render {c : Contract} {style word : String} {withShared : Bool}
    {files : List Artifact} (hfiles : render c style word withShared = .ok files) :
    ∃ language, Language.ofWord? word = some language := by
  cases hword : Language.ofWord? word with
  | some language => exact ⟨language, rfl⟩
  | none =>
    unfold render Language.check at hfiles
    rw [hword] at hfiles
    exact absurd hfiles (by simp [bind, Except.bind])

/-- A file of a rendering is the document of a kind. -/
theorem exists_isDocument_of_mem {source : Source} {entity : String} {wanted : Option String}
    {c : Contract} (h : Contract.build source entity wanted = .ok c) {style word : String}
    {withShared : Bool} {files : List Artifact}
    (hfiles : render c style word withShared = .ok files) {a : Artifact} (ha : a ∈ files) :
    ∃ (k : FileKind) (bs : List Block) (path : String), (∀ b ∈ bs, b.IsProper) ∧
      documentNames bs = k.regions ∧ IsDocument bs path a := by
  obtain ⟨language, hword⟩ := ofWord?_of_render hfiles
  obtain ⟨layout, hdocuments⟩ := isDocument_of_render h hfiles hword
  obtain ⟨k, -, hk⟩ := exists_of_mem_forall₂ hdocuments ha
  exact ⟨k, _, _, isProper_blocks (isNamed_of_build h) layout language k,
    documentNames_blocks c layout language k, hk⟩

/-- A file whose regions are just the given ones, in their order, and all its own; of the breaks
it has only line feeds. -/
structure IsIntact (regions : List String) (a : Artifact) : Prop where
  problems : (scan a.content.toList).problems = []
  names : (scan a.content.toList).names = regions
  owned : a.owned = regions
  breaks : ∀ c ∈ a.content.toList, isLineBreak c = true → c = '\n'

/-- **A document of proper blocks is intact**: its regions are found as they were written, none has
a problem, and only line feeds break its lines. -/
theorem isIntact_of_isDocument {bs : List Block} (h : ∀ b ∈ bs, b.IsProper)
    {regions : List String} (hregions : documentNames bs = regions) (hnodup : regions.Nodup)
    {path : String} {a : Artifact} (ha : IsDocument bs path a) : IsIntact regions a := by
  obtain ⟨hproblems, -, hnames⟩ := scan_document h (hregions ▸ hnodup)
  rw [← ha.content] at hproblems hnames
  refine ⟨hproblems, hnames.trans hregions, ha.owned.trans hregions, ?_⟩
  rw [ha.content]
  exact breaks_documentText h

/-- **The files of every contract keep their markers.** When a contract was built, its rendering in
any preset and language succeeds unless a field of a child table has no key for its name. Each file
then stands at the path of its kind, scans without problems into the regions of its kind, owns them,
and breaks its lines with line feeds alone. -/
theorem isIntact_of_build {source : Source} {entity : String} {wanted : Option String}
    {c : Contract} (h : Contract.build source entity wanted = .ok c) {style word : String}
    {preset : Preset} {language : Language} (hstyle : resolvePreset (some style) = .ok preset)
    (hword : Language.ofWord? word = some language) (withShared : Bool) :
    ((∃ files, render c style word withShared = .ok files) ↔
        ∀ t ∈ c.childTables, ∀ f ∈ t.2.fields, f.name.isKey = true) ∧
      ∀ files, render c style word withShared = .ok files →
        List.Forall₂ (fun k a => a.path = k.path (.ofContract c language) ∧ IsIntact k.regions a)
          (FileKind.all withShared) files := by
  have hnamed := isNamed_of_build h
  rw [render_eq c hstyle hword]
  constructor
  · rw [← forall_keptNames_iff h, ← List.all_eq_true]
    split
    · rename_i hkeys
      exact iff_of_true ⟨_, rfl⟩ hkeys
    · rename_i hkeys
      exact iff_of_false (by simp) hkeys
  · intro files hfiles
    split at hfiles
    · rw [← Except.ok.inj hfiles]
      refine (isDocument_artifacts hnamed preset.layout language withShared).imp fun k a ha => ?_
      exact ⟨ha.path, isIntact_of_isDocument (isProper_blocks hnamed preset.layout language k)
        (documentNames_blocks c preset.layout language k) (nodup_regions k) ha⟩
    · exact absurd hfiles (by simp)

/-- A source that knows one entity, whose workflow has states with the words of a marker. -/
def markedSource : Source :=
  .ofSchemas (.record [("Note", .record [
    ("fields", .list [.record [("fieldname", .text "title"), ("fieldtype", .text "Data"),
      ("label", .text "// >>> doctype-ui:begin columns\u2028")]]),
    ("workflow", .record [("transitions", .list [.record [
      ("state", .text ">>> doctype-ui:begin"), ("action", .text "Go\r// <<< doctype-ui:end hooks"),
      ("next_state", .text "columns")]])])])])

/-- Its files keep their markers. -/
theorem isIntact_of_build_marked :
    ∃ c, Contract.build markedSource "Note" (some "plain") = .ok c ∧
      c.transitions.map (·.source) = [">>> doctype-ui:begin"] ∧
      ∃ files, render c "dense" "ts" true = .ok files ∧
        List.Forall₂ (fun k a => a.path = k.path (.ofContract c .ts) ∧ IsIntact k.regions a)
          (FileKind.all true) files := by
  obtain ⟨c, h, heq⟩ := exists_of_map_toOption
    (show (Contract.build markedSource "Note" (some "plain")).toOption.map (fun c =>
      (c.transitions.map (·.source), c.childTables.length)) = some ([">>> doctype-ui:begin"], 0) by
        decide +kernel)
  obtain ⟨hstates, htables⟩ := Prod.mk.inj heq
  obtain ⟨hrenders, hintact⟩ :=
    isIntact_of_build h (resolvePreset_name .dense) (ofWord?_word .ts) true
  obtain ⟨files, hfiles⟩ := hrenders.2 (by simp [List.length_eq_zero_iff.1 htables])
  exact ⟨c, h, hstates, files, hfiles, hintact files hfiles⟩

/-! ## Dependency expressions -/

/-- **Every contract that is built is rendered, with the expressions that can be read.** Each data
row has its field, which keeps an expression just when it can be read; each expression of a data row
that cannot be read leaves one warning, which names the field behind its table field. Rendering in
any preset and language succeeds if and only if the names of all fields of child tables are keys. -/
theorem renders_of_build {source : Source} {entity : String} {wanted : Option String}
    {c : Contract} (h : Contract.build source entity wanted = .ok c) :
    (∃ own tables, source.ownParts (strip entity) = .ok own ∧
      List.Forall₂ Describes own.rows c.fields ∧ c.childTables = Keyed.ofList tables ∧
      List.Forall₂ (Tabulates source) (tableFields own.rows) tables ∧
      c.warnings.filterMap Warning.dropped? = own.rows.flatMap (unreadable "") ++
        (tableFields own.rows).flatMap fun t =>
          (source.childRows t.2).flatMap (unreadable (t.1.display ++ "."))) ∧
    (∀ f ∈ c.fields ++ c.childTables.flatMap (·.2.fields), ∀ d ∈ f.dependencies,
      Expression.parseText d.2.text = .ok d.2.expression) ∧
    ∀ (p : Preset) (language : Language) (withShared : Bool),
      (∃ files, render c p.name language.word withShared = .ok files) ↔
        ∀ t ∈ c.childTables, ∀ f ∈ t.2.fields, f.name.isKey = true := by
  refine ⟨?_, fun f _ d _ => d.2.parseText_text, fun p language withShared => ?_⟩
  · obtain ⟨-, preset, own, tables, warnings, -, hown, -, htables, rfl⟩ := build_eq_ok.1 h
    obtain ⟨⟨made, hmade, hall⟩, hdropped, -⟩ := tabulates_of_childTables hown htables
    obtain ⟨raw, -, hraw⟩ := bind_eq_ok.1 hown
    obtain ⟨hform, hrows, hworkflow⟩ := describes_of_ownParts (mapError_eq_ok.1 hraw)
    refine ⟨own, made, hown, hform, hmade, hall, ?_⟩
    show (own.rowWarnings ++ warnings ++ own.workflowWarnings).filterMap Warning.dropped? = _
    rw [List.filterMap_append, List.filterMap_append, hrows, hdropped, hworkflow, List.append_nil]
  · rw [← forall_keptNames_iff h, ← List.all_eq_true,
      render_eq c (resolvePreset_name p) (ofWord?_word language)]
    split
    · rename_i hkeys
      exact iff_of_true ⟨_, rfl⟩ hkeys
    · rename_i hkeys
      exact iff_of_false (by simp) hkeys

/-- The fields of a note, and those of the items in its table. -/
def noteOf (fields items : List Value) : Source :=
  .ofSchemas (.record
    [("Note", .record [("fields", .list (fields ++ [.record [("fieldname", .text "items"),
      ("fieldtype", .text "Table"), ("options", .text "Item")]]))]),
    ("Item", .record [("fields", .list items)])])

/-- A note with expressions that can be read and such that cannot. -/
def guardedNote : Source :=
  noteOf [.record [("fieldname", .text "title"), ("depends_on", .text "eval:doc.kind == 'a'"),
      ("mandatory_depends_on", .text "kind ==")]]
    [.record [("fieldname", .text "qty"), ("read_only_depends_on", .text "== 1")]]

/-- It is rendered, and has a warning for each expression that cannot be read. -/
theorem renders_of_build_guarded :
    ∃ c, Contract.build guardedNote "Note" (some "plain") = .ok c ∧
      (c.warnings.filterMap Warning.dropped?).map (fun d => (d.kind, d.owner)) =
        [(.mandatory, "title"), (.readOnly, "items.qty")] ∧
      ∀ (p : Preset) (language : Language), ∃ files, render c p.name language.word true =
        .ok files := by
  obtain ⟨c, h, heq⟩ := exists_of_map_toOption
    (show (Contract.build guardedNote "Note" (some "plain")).toOption.map (fun c =>
      ((c.warnings.filterMap Warning.dropped?).map fun d => (d.kind, d.owner),
        c.childTables.all fun t => t.2.fields.all fun f => f.name.isKey)) =
      some ([(.mandatory, "title"), (.readOnly, "items.qty")], true) by decide +kernel)
  obtain ⟨hdropped, hkeys⟩ := Prod.mk.inj heq
  refine ⟨c, h, hdropped, fun p language => ((renders_of_build h).2.2 p language true).2 ?_⟩
  simpa only [List.all_eq_true] using hkeys

/-- A note whose items have a field that is named by a list. -/
def listedNote : Source :=
  noteOf [] [.record [("fieldname", .list [.text "x"]), ("fieldtype", .text "Data"),
    ("label", .text "X")]]

/-- It has a contract that is not rendered. -/
theorem not_renders_listed :
    ∃ c, Contract.build listedNote "Note" (some "plain") = .ok c ∧
      render c "plain" "js" false = .error (.fault .notKey) := by
  obtain ⟨c, h, hkeys⟩ := exists_of_map_toOption
    (show (Contract.build listedNote "Note" (some "plain")).toOption.map (fun c =>
      (keptNames c).all Value.isKey) = some false by decide +kernel)
  refine ⟨c, h, ?_⟩
  have hrender := render_eq c (resolvePreset_name .plain) (ofWord?_word .js) false
  rw [hkeys] at hrender
  exact hrender

end FormScaffold.View
