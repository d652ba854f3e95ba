import FormScaffold.Proofs.Text.CodePoints
import FormScaffold.Proofs.View.Sizes

/-! # Bytes of rendered files

A text has no bytes when it holds half of a pair of code units, which is spelled behind a mark. No
template has a mark in it, and what is done to templates adds none. So a rendered file has bytes
when there is no mark in the texts that it takes from the contract.

* `Unmarked` — texts without a mark, however they are put together;
* `unmarked_templates` — the templates are such texts;
* **`isPaired_of_render`** — a rendered file has bytes when its data has no mark. -/

namespace FormScaffold.View

open Region Text

/-! ## Characters -/

/-- Settling annotations leaves characters out, and adds none. -/
theorem mem_of_mem_annotate {language : Language} {cs : List Char} {c : Char}
    (h : c ∈ annotate language cs) : c ∈ cs := by
  induction cs using annotate.induct with
  | case1 => exact absurd h (by simp [annotate])
  | case2 rest inside left hclose ih =>
    obtain ⟨rfl, -⟩ := untilClose_eq_some hclose
    rw [annotate_of_close language hclose, List.mem_append] at h
    rcases h with h | h
    · cases language with
      | js => exact absurd h (by simp)
      | ts => simp [show c ∈ inside from h]
    · simp [ih h]
  | case3 rest hclose ih =>
    rw [annotate_of_open language hclose, List.mem_cons] at h
    exact List.mem_cons.2 (h.imp_right ih)
  | case4 c' rest hopen ih =>
    rw [annotate.eq_3 language c' rest hopen, List.mem_cons] at h
    exact List.mem_cons.2 (h.imp_right ih)

/-- A text after replacements has its own characters and those of the new piece. -/
theorem mem_of_mem_replaceFrom {old new : List Char} {skip : Nat} {cs : List Char} {c : Char}
    (h : c ∈ replaceFrom old new skip cs) : c ∈ new ∨ c ∈ cs := by
  induction cs generalizing skip with
  | nil => exact absurd h (by simp [replaceFrom])
  | cons d cs ih =>
    cases skip with
    | succ skip => exact (ih h).imp_right (List.mem_cons_of_mem d)
    | zero =>
      rw [replaceFrom] at h
      split at h
      · rcases List.mem_append.1 h with h | h
        · exact .inl h
        · exact (ih h).imp_right (List.mem_cons_of_mem d)
      · rcases List.mem_cons.1 h with rfl | h
        · exact .inr List.mem_cons_self
        · exact (ih h).imp_right (List.mem_cons_of_mem d)

/-! ## Texts without a mark -/

/-- No character of the text is the mark behind which halves are spelled. -/
def Unmarked (s : String) : Prop := mark ∉ s.toList

instance (s : String) : Decidable (Unmarked s) := inferInstanceAs (Decidable (_ ∉ _))

namespace Unmarked

variable {s t : String}

/-- A text without the mark is unmarked. -/
theorem of_notMem (h : mark ∉ s.toList) : Unmarked s := h

/-- A text of characters none of which is the mark. -/
theorem ofList {cs : List Char} (h : mark ∉ cs) : Unmarked (String.ofList cs) := by
  rwa [Unmarked, String.toList_ofList]

/-- Texts one behind the other. -/
theorem append (hs : Unmarked s) (ht : Unmarked t) : Unmarked (s ++ t) := by
  rw [Unmarked, String.toList_append, List.mem_append, not_or]
  exact ⟨hs, ht⟩

/-- No lines are unmarked. -/
theorem joinLines_nil : Unmarked (joinLines []) := by decide

/-- Lines after other lines: there are only line feeds between them. -/
theorem joinLines_append {ls ls' : List String} (h : Unmarked (joinLines ls))
    (h' : Unmarked (joinLines ls')) : Unmarked (joinLines (ls ++ ls')) := by
  by_cases hls : ls = []
  · rwa [hls, List.nil_append]
  · by_cases hls' : ls' = []
    · rwa [hls', List.append_nil]
    · have hsplit : joinLines (ls ++ ls') = joinLines ls ++ "\n" ++ joinLines ls' :=
        String.intercalate_append_of_ne_nil hls hls'
      rw [hsplit]
      exact (h.append (@ofList ['\n'] (by decide))).append h'

/-- A line in front of others leaves them unmarked. -/
theorem joinLines_cons {ls : List String} (hs : Unmarked s) (ht : Unmarked (joinLines ls)) :
    Unmarked (joinLines (s :: ls)) := by
  have hone : Unmarked (joinLines [s]) := by rwa [joinLines, String.intercalate_singleton]
  exact (joinLines_append hone ht :)

/-- Lines none of which has a mark. -/
theorem joinLines {ls : List String} (h : ∀ l ∈ ls, Unmarked l) : Unmarked (joinLines ls) := by
  induction ls with
  | nil => exact joinLines_nil
  | cons l ls ih =>
    obtain ⟨hl, hls⟩ := List.forall_mem_cons.1 h
    exact joinLines_cons hl (ih hls)

/-- A constant of generated code. -/
theorem constant (hs : Unmarked s) (ht : Unmarked t) : Unmarked (constant s t) := by
  unfold View.constant
  have hhead : Unmarked "export const " := by decide
  have hequals : Unmarked " = " := by decide
  have hend : Unmarked ";" := by decide
  exact (((hhead.append hs).append hequals).append ht).append hend

/-- The marker lines of a region are made of its name and plain characters. -/
theorem wrap (hs : Unmarked s) (ht : Unmarked t) : Unmarked (wrap s t) := by
  have htags : mark ∉ beginTag ∧ mark ∉ endTag ∧ mark ≠ '\n' := by decide
  have hs : mark ∉ s.toList := hs
  have ht : mark ∉ t.toList := ht
  have hclosed : mark ∉ closed t.toList := by
    unfold closed
    split
    · exact ht
    · simpa [htags.2.2] using ht
  refine ofList ?_
  simp [between, htags, hs, hclosed]

/-- Settling annotations adds nothing. -/
theorem typed {language : Language} (hs : Unmarked s) : Unmarked (typed language s) :=
  ofList fun h => hs (mem_of_mem_annotate h)

/-- Permissions are declared with a type whose text is plain. -/
theorem declarePermissions {language : Language} (hs : Unmarked s) :
    Unmarked (declarePermissions language s) := by
  cases language with
  | js => exact hs
  | ts =>
    have hhead : Unmarked typedPermissionsHead := by
      unfold typedPermissionsHead
      with_reducible exact ofList (by decide)
    exact ofList fun h => (mem_of_mem_replaceFrom h).elim hhead hs

/-- A value on a block of lines, whose characters are known. -/
theorem block {v : Value} (h : mark ∉ valueText true v) : Unmarked (Json.block v) := ofList h

/-- A value on one line, whose characters are known. -/
theorem literal {v : Value} (h : mark ∉ valueText false v) : Unmarked (Json.literal v) := ofList h

/-- A line of the router. -/
theorem routeLine {path name component : String} (hpath : mark ∉ valueText false (.text path))
    (hname : mark ∉ valueText false (.text name)) (h : Unmarked component) :
    Unmarked (routeLine path name component) := by
  unfold View.routeLine
  have htexts : Unmarked "  \x7b path: " ∧ Unmarked ", name: " ∧ Unmarked ", component: " ∧
      Unmarked " \x7d," := by decide
  exact (((((htexts.1.append (literal hpath)).append htexts.2.1).append (literal hname)).append
    htexts.2.2.1).append h).append htexts.2.2.2

end Unmarked

/-! ## Files -/

set_option maxRecDepth 20000 in
/-- There is no mark in a template. -/
theorem unmarked_templates :
    (Unmarked listHead ∧ Unmarked listTail ∧ Unmarked formHead ∧ Unmarked formTail) ∧
      (Unmarked stateTemplate ∧ Unmarked behaviorTemplate ∧ Unmarked crudTemplate ∧
        Unmarked permissionsHead ∧ Unmarked canTemplate) ∧
      Unmarked clientTemplate ∧ Unmarked formObjectTemplate ∧ Unmarked rulesTemplate ∧
        Unmarked noticesTemplate := by
  unfold listHead listTail formHead formTail stateTemplate behaviorTemplate crudTemplate
    permissionsHead canTemplate clientTemplate formObjectTemplate rulesTemplate noticesTemplate
  refine ⟨⟨?_, ?_, ?_, ?_⟩, ⟨?_, ?_, ?_, ?_, ?_⟩, ?_, ?_, ?_, ?_⟩ <;>
    with_reducible exact .ofList (by decide)

/-- A shared file takes nothing from the contract. -/
theorem unmarked_sharedFile {title template : String} (htitle : Unmarked title)
    (htemplate : Unmarked template) (language : Language) :
    Unmarked (wrap sharedRegion (sharedHeader title ++ typed language template)) := by
  unfold sharedHeader sharedRegion
  have htexts : Unmarked "runtime" ∧ Unmarked "/**\n * " ∧
      Unmarked ("\n * Generated by doctype-ui. " ++
        "This file is fully regenerated; do not edit.\n */\n") := by decide
  exact .wrap htexts.1 (((htexts.2.1.append htitle).append htexts.2.2).append (.typed htemplate))

/-- Shared files have bytes. -/
theorem isPaired_shared (language : Language) :
    ∀ a ∈ sharedArtifacts language, isPaired a.content = true := by
  obtain ⟨-, -, hclient, hformObject, hrules, hnotices⟩ := unmarked_templates
  have hunmarked : ∀ a ∈ sharedArtifacts language, Unmarked a.content := by
    simp only [sharedArtifacts, sharedFiles, List.map_cons, List.map_nil, List.forall_mem_cons]
    refine ⟨unmarked_sharedFile ?_ hclient _, unmarked_sharedFile ?_ hformObject _,
      unmarked_sharedFile ?_ hrules _, unmarked_sharedFile ?_ hnotices _, List.forall_mem_nil _⟩ <;>
      decide
  exact fun a ha => isPaired_of_notMem (hunmarked a ha)

/-- A file of an entity has no mark when its data has none. -/
theorem unmarked_entity (c : Contract) (layout : Layout) (language : Language) :
    List.Forall₂ (fun k a =>
        (∀ cs ∈ k.data (.ofContract c language) c layout, mark ∉ cs) → Unmarked a.content)
      FileKind.ofEntity (entityArtifacts c layout language) := by
  obtain ⟨⟨_, _, _, _⟩, ⟨_, _, _, _, _⟩, -⟩ := unmarked_templates
  refine .cons ?_ (.cons ?_ (.cons ?_ (.cons ?_ (.cons ?_ (.cons ?_ (.cons ?_ (.cons ?_
    .nil))))))) <;>
  · simp only [FileKind.data, actionData, List.forall_mem_cons, listPage, formPage, moduleFile,
      Artifact.ofContent, listContent, formContent, resourceModule, behaviorModule, dependsModule,
      realtimeModule, actionsModule, routerModule, pageHeader, listImports, formImports,
      listComponent, formComponent, crudActions, workflowActions, permissionActions, textLiteral]
    intro hdata
    casesm* _ ∧ _
    -- What is known of the pieces follows how the text is put together.
    repeat' with_reducible first
      | assumption
      | exact Unmarked.of_notMem (by assumption)
      | exact Unmarked.block (by assumption)
      | exact Unmarked.literal (by assumption)
      | apply Unmarked.wrap
      | apply Unmarked.typed
      | apply Unmarked.declarePermissions
      | apply Unmarked.constant
      | apply Unmarked.routeLine
      | apply Unmarked.joinLines_nil
      | apply Unmarked.joinLines_cons
      | apply Unmarked.joinLines_append
      | apply Unmarked.append
      | exact Unmarked.ofList (by decide)

/-- The texts that the function of a transition holds, the name of the entity apart. -/
def transitionTexts (b : String × Transition) : List (List Char) :=
  [b.1.toList, (commentLine b.2.source).toList, (commentLine b.2.target).toList,
    valueText false (.text b.2.action)]

/-- The lines of a transition have no mark when its texts have none. -/
theorem unmarked_transitionLines {names : Names} {b : String × Transition}
    (hentity : mark ∉ valueText false (.text names.entity))
    (hdata : ∀ cs ∈ transitionTexts b, mark ∉ cs) : ∀ l ∈ transitionLines names b, Unmarked l := by
  simp only [transitionTexts, List.forall_mem_cons] at hdata
  obtain ⟨hname, hsource, htarget, haction, -⟩ := hdata
  have htexts : Unmarked "// " ∧ Unmarked " -> " ∧ Unmarked "export function " ∧
      Unmarked r#"(name#{: string}#) {"# ∧ Unmarked "  return applyWorkflowAction(" ∧
      Unmarked ", name, " ∧ Unmarked ");" ∧ Unmarked "\x7d" ∧ Unmarked "" := by decide
  obtain ⟨hopen, harrow, hexport, hhead, hcall, hcomma, hend, hbrace, hempty⟩ := htexts
  simp only [transitionLines, textLiteral, List.forall_mem_cons]
  exact ⟨((hopen.append hsource).append harrow).append htarget,
    .typed ((hexport.append hname).append hhead),
    (((hcall.append (.literal hentity)).append hcomma).append (.literal haction)).append hend,
    hbrace, hempty, List.forall_mem_nil _⟩

/-- No text that the files of an entity take from the contract has a mark in it. -/
structure TakesUnmarked (c : Contract) (layout : Layout) (language : Language) : Prop where
  files : ∀ k ∈ FileKind.ofEntity.erase .actions,
    ∀ cs ∈ k.data (.ofContract c language) c layout, mark ∉ cs
  actions : ∀ cs ∈ actionData (.ofContract c language) c, mark ∉ cs
  transitions : ∀ b ∈ bindings c.transitions, ∀ cs ∈ transitionTexts b, mark ∉ cs

instance (c : Contract) (layout : Layout) (language : Language) :
    Decidable (TakesUnmarked c layout language) :=
  decidable_of_iff (_ ∧ _ ∧ _) ⟨fun ⟨hfiles, hactions, htransitions⟩ =>
    ⟨hfiles, hactions, htransitions⟩, fun h => ⟨h.files, h.actions, h.transitions⟩⟩

/-- Then no data of a file has a mark. -/
theorem TakesUnmarked.notMem {c : Contract} {layout : Layout} {language : Language}
    (h : TakesUnmarked c layout language) :
    ∀ k ∈ FileKind.ofEntity, ∀ cs ∈ k.data (.ofContract c language) c layout, mark ∉ cs := by
  intro k hk
  by_cases hactions : k = .actions
  · subst hactions
    refine List.forall_mem_cons.2 ⟨Unmarked.joinLines fun l hl => ?_, h.actions⟩
    obtain ⟨b, hb, hl⟩ := List.mem_flatMap.1 hl
    have hentity : mark ∉ valueText false (.text (Names.ofContract c language).entity) :=
      h.actions _ (by simp [actionData])
    exact unmarked_transitionLines hentity (h.transitions b hb) l hl
  · exact h.files k ((List.mem_erase_of_ne hactions).2 hk)

/-- The files of such an entity have bytes. -/
theorem isPaired_entity {c : Contract} {layout : Layout} {language : Language}
    (hdata : TakesUnmarked c layout language) :
    ∀ a ∈ entityArtifacts c layout language, isPaired a.content = true := by
  intro a ha
  obtain ⟨k, hk, ha⟩ := exists_of_mem_forall₂ (unmarked_entity c layout language) ha
  exact isPaired_of_notMem (ha (hdata.notMem k hk))

/-- **A rendered file has bytes when there is no mark in what it takes from the contract.** What the
templates have in them are plain characters, and literals, slugs and comments take over the
characters that they are made from. -/
theorem isPaired_of_render {c : Contract} {preset : Preset} {language : Language}
    {withShared : Bool} {files : List Artifact}
    (hfiles : render c preset.name language.word withShared = .ok files)
    (hdata : TakesUnmarked c preset.layout language) : ∀ f ∈ files, isPaired f.content = true := by
  rw [render_eq c (resolvePreset_name preset) (ofWord?_word language)] at hfiles
  split at hfiles
  · obtain rfl := Except.ok.inj hfiles
    refine List.forall_mem_append.2 ⟨fun f hf => ?_, isPaired_entity hdata⟩
    cases withShared with
    | false => exact absurd hf (by simp)
    | true => exact isPaired_shared language f hf
  · exact absurd hfiles (by simp)

end FormScaffold.View
