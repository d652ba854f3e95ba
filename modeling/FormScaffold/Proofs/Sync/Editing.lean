import FormScaffold.Proofs.Region.Converging
import FormScaffold.Proofs.Sync.Settling

/-! # Files that were edited

What syncing makes of a rendered file that was edited outside of its regions.

* **`isUntouched_iff`** — when syncing leaves an edited file as it is;
* `not_isUntouched_of_carriage` — one carriage return before a line feed in an edit is enough to
  have the regions written anew;
* **`merge_rendered_again_iff`** — what a merge that cuts orphans out leaves, and when merging again
  finds nothing to do. -/

namespace FormScaffold.Sync

open Region View Text

/-- Syncing an artifact reports no change and leaves the tree. -/
def IsUntouched (t : FileTree) (o : Options) (a : Artifact) : Prop :=
  ∃ warnings, file t o a = (t, .ok ⟨a.path, .unchanged, none, [], warnings⟩)

/-! ## Edits that leave a file alone -/

section Document

variable {bs : List Block} (h : ∀ b ∈ bs, b.IsProper) (hnames : (documentNames bs).Nodup)
  {path : String} {a : Artifact} (ha : IsDocument bs path a) {t : FileTree} {o : Options}
  (ho : o.strategy = .respectManual) {loc : Location} (hplace : destination t o a.path = .ok loc)
  {bytes : ByteArray} (hold : existing t loc = .ok (some (.file bytes))) {old : String}
  (hread : ofUtf8? bytes = some old) (hregions : ∀ name ∈ documentNames bs, name ∈ names old.toList)
include h hnames ha ho hplace hold hread hregions

/-- Syncing a document leaves a file that has its regions exactly when these hold its bodies, in the
line ending of the file. -/
theorem isUntouched_iff_of_isDocument :
    IsUntouched t o a ↔ ∀ name ∈ documentNames bs, innerOf old.toList name =
      inEnding (hasCarriage old.toList) (innerOf a.content.toList name) := by
  obtain ⟨m, hm⟩ := (exists_merge_document_iff h hnames old.toList a.path).2 hregions
  have hfile : file t o a = if m.text == old.toList then
      (t, .ok ⟨a.path, .unchanged, none, [], m.warnings⟩)
      else storeAs t o loc (String.ofList m.text)
        ⟨a.path, .updated, none, m.changed, m.warnings⟩ := by
    have howned := ownedRegions_of_isDocument h hnames ha
    simp only [file, hplace, hold, fileAt, hread, mergeInto, howned, ho, ha.content, hm]
  rw [ha.content, ← text_merged_eq_iff h hnames hm, IsUntouched, hfile]
  constructor
  · rintro ⟨warnings, hsame⟩
    by_contra htext
    rw [if_neg (by simpa using htext)] at hsame
    -- A file that is stored is never reported as unchanged.
    have hstored := congrArg Prod.snd hsame
    unfold storeAs at hstored
    cases hs : store t o loc (String.ofList m.text) with
    | mk t' stored =>
      rw [hs] at hstored
      cases stored <;> simp [Except.map] at hstored
  · intro htext
    exact ⟨m.warnings, if_pos (by simpa using htext)⟩

/-- Regions that hold the very bodies of the document are left alone as long as no edit has a
carriage return before a line feed. -/
theorem isUntouched_iff_hasCarriage (hne : documentNames bs ≠ [])
    (hsame : ∀ name ∈ documentNames bs,
      innerOf old.toList name = innerOf a.content.toList name) :
    IsUntouched t o a ↔ hasCarriage old.toList = false := by
  rw [isUntouched_iff_of_isDocument h hnames ha ho hplace hold hread hregions]
  constructor
  · intro hheld
    obtain ⟨name, hname⟩ := List.exists_mem_of_ne_nil _ hne
    have hinner := (hheld name hname).symm.trans (hsame name hname)
    rw [ha.content] at hinner
    exact inEnding_innerOf_inj h hnames hname (b := false) hinner
  · intro hending name hname
    rw [hending, hsame name hname]
    rfl

end Document

/-! ### A file with a note in front -/

/-- The routes of an entity, as a file. -/
def noteRoutes : Artifact :=
  let names : Names := ⟨"Note", Naming.slug "Note", Naming.component "Note", .js⟩
  moduleFile names "router/note" (routerModule names)

/-- The routes are a file of a rendering. -/
theorem exists_noteRoutes :
    ∃ c files, Contract.build titledSource "Note" (some "plain") = .ok c ∧
      render c "plain" "js" false = .ok files ∧ noteRoutes ∈ files := by
  obtain ⟨c, hc, heq⟩ := exists_of_map_toOption
    (show (Contract.build titledSource "Note" (some "plain")).toOption.map (fun c =>
      (c.entity, c.childTables.length)) = some ("Note", 0) by decide +kernel)
  obtain ⟨hentity, htables⟩ := Prod.mk.inj heq
  have hkeys := forall_keptNames_of_nil hc (List.length_eq_zero_iff.1 htables)
  refine ⟨c, _, hc, render_eq_ok hkeys (resolvePreset_name .plain) (ofWord?_word .js) false, ?_⟩
  have hnames : Names.ofContract c .js =
      ⟨"Note", Naming.slug "Note", Naming.component "Note", .js⟩ := by
    rw [Names.ofContract, hentity]
  have hslug : Naming.slug "Note" = "note" := by decide
  simp only [entityArtifacts, hnames, noteRoutes, hslug]
  simp

/-- There is no mark in the routes, since there is none in the slug of the entity. -/
theorem unmarked_noteRoutes : Unmarked noteRoutes.content := by
  obtain ⟨c, -, hentity⟩ := exists_of_map_toOption
    (show (Contract.build titledSource "Note" (some "plain")).toOption.map (·.entity) =
      some "Note" by decide +kernel)
  have hnames : Names.ofContract c .js =
      ⟨"Note", Naming.slug "Note", Naming.component "Note", .js⟩ := by
    rw [Names.ofContract, hentity]
  have hdata : ∀ cs ∈ FileKind.routes.data (.ofContract c .js) c Preset.plain.layout,
      mark ∉ cs := by
    rw [hnames]
    simp only [FileKind.data, List.forall_mem_cons]
    decide +kernel
  have hfiles := unmarked_entity c Preset.plain.layout .js
  simp only [FileKind.ofEntity, entityArtifacts, List.forall₂_cons] at hfiles
  obtain ⟨-, -, -, -, -, -, -, hroutes, -⟩ := hfiles
  rw [hnames] at hroutes hdata
  exact hroutes hdata

/-- The routes behind a note are read back. -/
theorem ofUtf8?_noteRoutes {note : String} (h : Unmarked note) :
    ofUtf8? (bytes (note ++ noteRoutes.content)) = some (note ++ noteRoutes.content) :=
  ofUtf8?_bytes (isPaired_of_notMem (h.append unmarked_noteRoutes))

/-- A tree that holds one file, in one directory. -/
def routed (text : String) : FileTree :=
  (FileTree.empty.put ["router"] .directory).put ["router", "note.js"] (.file (bytes text))

/-- The tree of the example is simple. -/
theorem isSimple_routed (text : String) : Contents.IsSimple (routed text).item? := by
  have hdirectory : Contents.IsSimple (FileTree.empty.put ["router"] .directory).item? := by
    rw [FileTree.item?_put_eq _ (by simp)]
    have hroot : FileTree.empty.item? [] = some .directory := rfl
    exact Contents.isSimple_empty.update hroot rfl (by simp)
  rw [routed, FileTree.item?_put_eq _ (by simp)]
  have hrouter : (FileTree.empty.put ["router"] .directory).item? ["router"] =
      some .directory := rfl
  exact hdirectory.update hrouter rfl (by simp)

/-- The routes go where the file is. -/
theorem destination_noteRoutes (text : String) :
    destination (routed text) (respecting [] (Path.ofText "/")) noteRoutes.path =
        .ok ["router", "note.js"] ∧
      existing (routed text) ["router", "note.js"] = .ok (some (.file (bytes text))) := by
  have hfits : FileTree.HasNames ["router", "note.js"] ∧
      (pathOf ["router", "note.js"]).flaw? = none :=
    FileTree.fits_of_isModest (by decide) (by decide)
  constructor
  · have hsteps : Path.ofText noteRoutes.path = ⟨.here, ["router", "note.js"]⟩ := by
      decide
    have hplace : base (respecting [] (Path.ofText "/")) ++ ["router", "note.js"] =
        ["router", "note.js"] := by decide
    rw [← hplace]
    exact destination_of_resolve (isSimple_routed text) (by simp) hsteps (by decide) (by simp)
      (by decide) (Path.flaw?_eq_none.1 (hplace ▸ hfits.2)).1
  · exact existing_of_hasNames (isSimple_routed text) hfits.1 hfits.2

/-! ### Rendered files -/

/-- **When syncing leaves an edited file alone.** A rendered file is synced onto a text in which its
regions are well-formed, whatever else stands in the text. Nothing is changed, and this is reported,
exactly when the regions hold what was rendered in the line ending of the text. So when they hold
just what was rendered, it depends on the text alone: no carriage return may stand before a line
feed anywhere. -/
theorem isUntouched_iff {source : Source} {entity : String} {wanted : Option String} {c : Contract}
    (h : Contract.build source entity wanted = .ok c) {style word : String} {withShared : Bool}
    {files : List Artifact} (hfiles : render c style word withShared = .ok files) {a : Artifact}
    (ha : a ∈ files) {t : FileTree} {o : Options} (ho : o.strategy = .respectManual)
    {loc : Location} (hplace : destination t o a.path = .ok loc) {bytes : ByteArray}
    (hold : existing t loc = .ok (some (.file bytes))) {old : String}
    (hread : ofUtf8? bytes = some old) (hregions : ∀ name ∈ a.owned, name ∈ names old.toList) :
    (IsUntouched t o a ↔ ∀ name ∈ a.owned, innerOf old.toList name =
        inEnding (hasCarriage old.toList) (innerOf a.content.toList name)) ∧
      ((∀ name ∈ a.owned, innerOf old.toList name = innerOf a.content.toList name) →
        (IsUntouched t o a ↔ hasCarriage old.toList = false)) := by
  obtain ⟨k, bs, path, hproper, hkind, hdocument⟩ := exists_isDocument_of_mem h hfiles ha
  have hnodup : (documentNames bs).Nodup := hkind ▸ nodup_regions k
  rw [hdocument.owned] at hregions ⊢
  exact ⟨isUntouched_iff_of_isDocument hproper hnodup hdocument ho hplace hold hread hregions,
    isUntouched_iff_hasCarriage hproper hnodup hdocument ho hplace hold hread hregions
      (hkind ▸ regions_ne_nil k)⟩

/-- A note in front of a file. -/
theorem prepend_note {bs : List Block} (h : ∀ b ∈ bs, b.IsProper)
    (hnames : (documentNames bs).Nodup) {note : List Char} (hline : Text.lines note = [note])
    (hlast : note.getLast? = some '\n') (hplain : isMarkerLine note = false) :
    names (note ++ documentText bs) = documentNames bs ∧
      (∀ name ∈ documentNames bs,
        innerOf (note ++ documentText bs) name = innerOf (documentText bs) name) ∧
      hasCarriage (note ++ documentText bs) = hasCarriage note := by
  have htext : [Piece.line note].flatMap Piece.text = note := by simp
  have hlines : IsLines ([Piece.line note].flatMap Piece.lines) := by
    simpa using isLines_cons.2 ⟨hline, by simp, isLines_nil⟩
  have hproper : ∀ p ∈ [Piece.line note], p.IsProper := by simpa [Piece.IsProper] using hplain
  -- The note is a plain line of its own in front of the document.
  have hscan := scan_prepend h hlines (htext.symm ▸ hlast) hproper (by simpa [pieceNames])
  refine ⟨?_, fun name hname => ?_, ?_⟩
  · have hpieces := hscan.2.2
    rw [htext] at hpieces
    rw [names_eq_pieceNames, hpieces, List.singleton_append, pieceNames_line,
      pieceNames_documentPieces]
  · have hinner := innerOf_prepend h hlines (htext.symm ▸ hlast) hproper (by simpa [pieceNames])
      hname
    rwa [htext] at hinner
  · rw [hasCarriage_append (not_fuses_of_lf hlast _),
      hasCarriage_eq_false (ne_cr_of_mem_documentText h), Bool.or_false]

/-- A note in front of the routes leaves them alone. -/
theorem isUntouched_noteRoutes :
    ∃ c files, Contract.build titledSource "Note" (some "plain") = .ok c ∧
      render c "plain" "js" false = .ok files ∧ noteRoutes ∈ files ∧
      (∀ name ∈ noteRoutes.owned, name ∈ names ("// note\n" ++ noteRoutes.content).toList) ∧
      IsUntouched (routed ("// note\n" ++ noteRoutes.content)) (respecting [] (Path.ofText "/"))
        noteRoutes := by
  obtain ⟨c, files, hc, hfiles, hmem⟩ := exists_noteRoutes
  obtain ⟨hplace, hold⟩ := destination_noteRoutes ("// note\n" ++ noteRoutes.content)
  have hread := @ofUtf8?_noteRoutes "// note\n" (by decide)
  obtain ⟨k, bs, path, hproper, hkind, hdocument⟩ := exists_isDocument_of_mem hc hfiles hmem
  have hline : Text.lines "// note\n".toList = ["// note\n".toList] := by decide
  obtain ⟨hnames, hinner, hending⟩ :=
    prepend_note hproper (hkind ▸ nodup_regions k) hline (by decide) (by decide)
  rw [← hdocument.content, ← String.toList_append] at hnames hinner hending
  rw [← hdocument.owned] at hnames hinner
  have hregions : ∀ name ∈ noteRoutes.owned,
      name ∈ names ("// note\n" ++ noteRoutes.content).toList := fun name hname => hnames ▸ hname
  refine ⟨c, files, hc, hfiles, hmem, hregions, ?_⟩
  exact ((isUntouched_iff hc hfiles hmem rfl hplace hold hread hregions).2 hinner).2 hending

/-- A note that ends in a carriage return and a line feed has the routes written anew, although they
are what was rendered. -/
theorem not_isUntouched_of_carriage :
    ∃ c files, Contract.build titledSource "Note" (some "plain") = .ok c ∧
      render c "plain" "js" false = .ok files ∧ noteRoutes ∈ files ∧
      existing (routed ("// note\r\n" ++ noteRoutes.content)) ["router", "note.js"] =
        .ok (some (.file (bytes ("// note\r\n" ++ noteRoutes.content)))) ∧
      (∀ name ∈ noteRoutes.owned, name ∈ names ("// note\r\n" ++ noteRoutes.content).toList ∧
        innerOf ("// note\r\n" ++ noteRoutes.content).toList name =
          innerOf noteRoutes.content.toList name) ∧
      ¬IsUntouched (routed ("// note\r\n" ++ noteRoutes.content)) (respecting [] (Path.ofText "/"))
        noteRoutes := by
  obtain ⟨c, files, hc, hfiles, hmem⟩ := exists_noteRoutes
  obtain ⟨hplace, hold⟩ := destination_noteRoutes ("// note\r\n" ++ noteRoutes.content)
  have hread := @ofUtf8?_noteRoutes "// note\r\n" (by decide)
  obtain ⟨k, bs, path, hproper, hkind, hdocument⟩ := exists_isDocument_of_mem hc hfiles hmem
  have hnodup : (documentNames bs).Nodup := hkind ▸ nodup_regions k
  have hline : Text.lines "// note\r\n".toList = ["// note\r\n".toList] := by decide
  obtain ⟨hnames, hinner, hending⟩ := prepend_note hproper hnodup hline (by decide) (by decide)
  rw [← hdocument.content, ← String.toList_append] at hnames hinner hending
  have hregions : ∀ name ∈ documentNames bs,
      name ∈ names ("// note\r\n" ++ noteRoutes.content).toList := fun name hname =>
    hnames ▸ hname
  refine ⟨c, files, hc, hfiles, hmem, hold, ?_, ?_⟩
  · rw [hdocument.owned]
    exact fun name hname => ⟨hregions name hname, hinner name hname⟩
  · rw [isUntouched_iff_hasCarriage hproper hnodup hdocument rfl hplace hold hread hregions
      (hkind ▸ regions_ne_nil k) hinner, hending]
    decide

/-! ## Merging again -/

/-- **Cutting orphans out converges.** A rendered file is merged into a text, and the orphans are
cut out. What is left has no marker out of place and just the regions of the file, each with what
was rendered in the line ending of the text. Merging the file again changes nothing exactly when
cutting has left that line ending; otherwise the second merge is the last to change anything. -/
theorem merge_rendered_again_iff {source : Source} {entity : String} {wanted : Option String}
    {c : Contract} (h : Contract.build source entity wanted = .ok c) {style word : String}
    {withShared : Bool} {files : List Artifact}
    (hfiles : render c style word withShared = .ok files) {a : Artifact} (ha : a ∈ files)
    {old : List Char} {path : String} {m : Merged}
    (hm : merge old a.content.toList a.owned path .overwriteAuto = .ok m) :
    (scan m.text).problems = [] ∧ (names m.text).Perm a.owned ∧
      (∀ name ∈ a.owned, innerOf m.text name =
        inEnding (hasCarriage old) (innerOf a.content.toList name)) ∧
      (merge m.text a.content.toList a.owned path .overwriteAuto = .ok ⟨m.text, [], []⟩ ↔
        hasCarriage m.text = hasCarriage old) ∧
      ∃ m', merge m.text a.content.toList a.owned path .overwriteAuto = .ok m' ∧
        merge m'.text a.content.toList a.owned path .overwriteAuto = .ok ⟨m'.text, [], []⟩ := by
  obtain ⟨k, bs, path', hproper, hkind, hdocument⟩ := exists_isDocument_of_mem h hfiles ha
  have hnodup : (documentNames bs).Nodup := hkind ▸ nodup_regions k
  have hne : documentNames bs ≠ [] := hkind ▸ regions_ne_nil k
  rw [hdocument.content, hdocument.owned] at hm ⊢
  exact ⟨problems_merged hproper hnodup hm, names_merged hproper hnodup hm,
    fun name hname => innerOf_merged_overwriteAuto hproper hnodup hm hname,
    merge_again_iff hproper hnodup hm hne path, exists_merge_again hproper hnodup hm hne path⟩

/-- A carriage return, a region that nothing owns, and a line feed. -/
def joined : List Piece :=
  [.line "// note\r".toList, .region "old" (beginLine "old") [] (endLine "old"), .line ['\n']]

/-- A region is cut out between a carriage return and a line feed, which become one break: the
routes are written in one line ending, and then in the other. -/
theorem merge_rendered_again_joined :
    ∃ c files m, Contract.build titledSource "Note" (some "plain") = .ok c ∧
      render c "plain" "js" false = .ok files ∧ noteRoutes ∈ files ∧
      merge (joined.flatMap Piece.text ++ noteRoutes.content.toList) noteRoutes.content.toList
        noteRoutes.owned noteRoutes.path .overwriteAuto = .ok m ∧
      (names m.text).Perm noteRoutes.owned ∧
      merge m.text noteRoutes.content.toList noteRoutes.owned noteRoutes.path .overwriteAuto ≠
        .ok ⟨m.text, [], []⟩ := by
  obtain ⟨c, files, hc, hfiles, hmem⟩ := exists_noteRoutes
  obtain ⟨k, bs, path, hproper, hkind, hdocument⟩ := exists_isDocument_of_mem hc hfiles hmem
  have hnodup : (documentNames bs).Nodup := hkind ▸ nodup_regions k
  have hnew : (pieceNames joined ++ documentNames bs).Nodup := by
    rw [hkind]
    cases k <;> decide
  have hlines : IsLines (joined.flatMap Piece.lines) := by
    have hcut : Text.lines (joined.flatMap Piece.text) = joined.flatMap Piece.lines := by decide
    exact hcut ▸ isLines_lines _
  have hjoined : ∀ p ∈ joined, p.IsProper := by
    simp only [joined, List.forall_mem_cons]
    have hnote : isMarkerLine "// note\r".toList = false := by decide
    exact ⟨hnote, ⟨by decide, by decide, by simp⟩, isMarkerLine_eq_false.2 (by decide), by simp⟩
  obtain ⟨hproblems, hregions, hpieces⟩ := scan_prepend hproper hlines (by decide) hjoined hnew
  have hfound : ∀ name ∈ documentNames bs,
      name ∈ names (joined.flatMap Piece.text ++ documentText bs) ∧
        name ∈ names (adaptEnding (joined.flatMap Piece.text ++ documentText bs)
          (documentText bs)) := by
    intro name hname
    refine ⟨?_, (mem_names_adaptEnding hproper hnodup _).2 hname⟩
    rw [names_eq_pieceNames, hpieces, pieceNames, List.filterMap_append, ← pieceNames,
      ← pieceNames, pieceNames_documentPieces]
    exact List.mem_append_right _ hname
  obtain ⟨m, hm⟩ := exists_merge_overwriteAuto hproblems hfound noteRoutes.path
  have hm' := hm
  rw [← hdocument.content, ← hdocument.owned] at hm'
  obtain ⟨-, hnames, -, hagain, -⟩ := merge_rendered_again_iff hc hfiles hmem hm'
  refine ⟨c, files, m, hc, hfiles, hmem, hm', hnames, ?_⟩
  have hcut : fateOf .overwriteAuto (documentNames bs) (adaptEnding
      (joined.flatMap Piece.text ++ documentText bs) (documentText bs)) "old" = .cut := by
    have hold : "old" ∉ documentNames bs := fun hname =>
      (List.nodup_append.1 hnew).2.2 "old" (by decide) "old" hname rfl
    rw [fateOf, if_neg hold]
  have hafter : hasCarriage m.text = true := by
    have hleft : ∀ fate : String → Fate, fate "old" = .cut →
        undergo fate (joined ++ documentPieces bs) =
          .line "// note\r".toList :: .line ['\n'] :: undergo fate (documentPieces bs) := by
      intro fate hfate
      simp [joined, undergo, Piece.undergo, hfate]
    rw [text_merged hm hnodup, hpieces, hleft _ hcut]
    simp [hasCarriage]
  have hbefore : hasCarriage (joined.flatMap Piece.text ++ documentText bs) = false := by
    rw [hasCarriage_append (not_fuses_of_lf (by decide) _),
      hasCarriage_eq_false (ne_cr_of_mem_documentText hproper)]
    decide
  rw [Ne, hagain, hafter, hdocument.content, hbefore]
  decide

end FormScaffold.Sync
