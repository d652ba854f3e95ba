import Mathlib.Algebra.Order.BigOperators.Group.List
import FormScaffold.Proofs.Archive.Packing
import FormScaffold.Proofs.Sync.Footprint
import FormScaffold.Proofs.Sync.Rendered
import FormScaffold.Proofs.Sync.Settling
import FormScaffold.Proofs.View.Encoding
import FormScaffold.Proofs.View.Sizes

/-! # Archives of rendered files

The entry of a rendered file has the steps of its path, and no other file has that entry. The name
of the entry is the path itself unless the slug of the entity is empty, since then the path of a
page has an empty step.

* `entries_of_areSpots` — the entries of files at places of their own;
* `keeps_of_areSpots` — a zip file can hold small files;
* **`unpack_pack_render_iff`** — unpacking the archive of a rendering gives each file under its path
  exactly when the name of the entity has a letter or a digit;
* **`ArePlaced`**, **`arePlaced_of_build`** — paths that every check accepts, whatever the name. -/

namespace FormScaffold

open View Sync

/-! ## Paths in plain form -/

/-- A path with the steps alone that lead on. -/
def plainPath (path : String) : String := "/".intercalate (Path.ofText path).steps

/-- What is put together from fewer parts is not longer. -/
theorem length_intercalate_le {α : Type} (between : List α) {parts parts' : List (List α)}
    (h : parts.Sublist parts') :
    (between.intercalate parts).length ≤ (between.intercalate parts').length := by
  have hmore : ∀ (part : List α) (parts : List (List α)),
      (between.intercalate parts).length ≤ (between.intercalate (part :: parts)).length := by
    intro part parts
    cases parts with
    | nil => simp
    | cons first parts => simp; omega
  induction h with
  | slnil => exact Nat.le_refl _
  | cons part _ ih => exact Nat.le_trans ih (hmore part _)
  -- A separator goes with every part but the last, so that the parts behind matter.
  | @cons_cons rest rest' part hrest ih =>
    cases rest with
    | nil =>
      rw [List.intercalate_singleton]
      cases rest' <;> simp
    | cons first rest =>
      cases rest' with
      | nil => exact absurd hrest (by simp)
      | cons first' rest' =>
        rw [List.intercalate_cons_cons, List.intercalate_cons_cons]
        simp only [List.length_append]
        exact Nat.add_le_add_left ih _

/-- A plain path is not longer than the path. -/
theorem length_plainPath_le (path : String) :
    (plainPath path).toList.length ≤ path.toList.length := by
  have hlength := length_intercalate_le ['/']
    (((Path.pieces path).filter_sublist (p := Path.isStep)).map String.toList)
  rw [Archive.map_toList_pieces, List.intercalate_splitOn] at hlength
  rw [plainPath, toList_intercalate_slash]
  exact hlength

/-- What the path of names is taken apart into. -/
theorem plainPath_of_isPathOf {steps : List String} {path : String} (h : IsPathOf steps path) :
    plainPath path = "/".intercalate steps := by
  rw [plainPath, h.ofText]

/-- The pieces of a plain path are the steps of the path. -/
theorem pieces_plainPath {steps : List String} {path : String} (h : IsPathOf steps path) :
    Path.pieces (plainPath path) = steps := by
  rw [plainPath_of_isPathOf h]
  refine pieces_intercalate (fun name hname => ?_) h.ne_nil
  have hsteps : (Path.pieces path).filter Path.isStep = steps := congrArg Path.steps h.ofText
  rw [← hsteps] at hname
  exact Archive.slash_notMem_of_mem_pieces (List.mem_of_mem_filter hname)

/-- A plain path has no empty piece. -/
theorem isStep_of_mem_pieces_plainPath {steps : List String} {path : String}
    (h : IsPathOf steps path) :
    ∀ piece ∈ Path.pieces (plainPath path), Path.isStep piece = true := by
  have hsteps : (Path.pieces path).filter Path.isStep = steps := congrArg Path.steps h.ofText
  rw [pieces_plainPath h, ← hsteps]
  exact fun piece hpiece => (List.mem_filter.1 hpiece).2

namespace View.FileKind

variable {names : Names}

/-- The characters of a path. -/
theorem mem_path (h : IsSlug names.slug) {k : FileKind} {c : Char}
    (hc : c ∈ (k.path names).toList) : c = '/' ∨ c = '.' ∨ c = '-' ∨ c.isAlphanum = true := by
  rw [path_eq, toList_intercalate_slash] at hc
  rcases Text.mem_intercalate hc with hc | ⟨step, hstep, hc⟩
  · exact .inl (List.mem_singleton.1 hc)
  · obtain ⟨name, hname, rfl⟩ := List.mem_map.1 hstep
    exact .inr (mem_way h hname hc)

/-- The paths of files have slashes, points, hyphens, letters and digits in them, and nothing else.
-/
theorem mem_plainPath (h : IsSlug names.slug) {k : FileKind} {c : Char}
    (hc : c ∈ (plainPath (k.path names)).toList) :
    c = '/' ∨ c = '.' ∨ c = '-' ∨ c.isAlphanum = true := by
  rw [plainPath, toList_intercalate_slash] at hc
  rcases Text.mem_intercalate hc with hc | ⟨step, hstep, hc⟩
  · exact .inl (List.mem_singleton.1 hc)
  · obtain ⟨name, hname, rfl⟩ := List.mem_map.1 hstep
    exact mem_path h (Archive.mem_of_mem_pieces (List.mem_of_mem_filter hname) hc)

/-- The path of a file is at most a hundred characters longer than the slug in it. -/
theorem atMost_path (k : FileKind) :
    AtMost (names.slug.toList.length + 100) (k.path names) := by
  have hword : AtMost 2 names.language.word := by
    cases names.language <;> exact .ofList (by decide)
  have hstem : AtMost (names.slug.toList.length + 60) (k.stem names ++ ".") := by
    cases k <;>
    · apply AtMost.mono
      · simp only [stem]
        repeat' with_reducible first
          | apply AtMost.append
          | exact AtMost.ofList (n := 20) (by decide)
          | exact AtMost.self _
      · omega
  exact .mono (hstem.append hword) (by omega)

/-- The pieces of a path. -/
theorem pieces_path (h : IsSlug names.slug) (k : FileKind) :
    Path.pieces (k.path names) = k.folder :: (k.subfolders names ++ [k.fileName names]) := by
  rw [path_eq]
  exact pieces_intercalate
    (fun name hname hslash => absurd (mem_way h hname hslash) (by decide)) (by simp)

/-- With a slug, paths are plain. -/
theorem plainPath_path (h : IsSlug names.slug) (hne : names.slug ≠ "") (k : FileKind) :
    plainPath (k.path names) = k.path names := by
  -- A slug has no dots, and leads on when it is not empty.
  have hslug : Path.isStep names.slug = true := by
    have hdot : names.slug ≠ "." := by
      intro heq
      exact h.ne (by decide) (by decide) (heq ▸ (by decide) : '.' ∈ names.slug.toList)
    simp [Path.isStep, hne, hdot]
  have hall : (k.subfolders names).filter Path.isStep = k.subfolders names := by
    refine List.filter_eq_self.2 fun name hname => ?_
    cases k <;> simp only [subfolders, List.mem_singleton, List.not_mem_nil] at hname <;>
      exact hname ▸ hslug
  rw [plainPath_of_isPathOf (isPathOf_path h k), steps_eq, hall, path_eq, List.cons_append]

/-- Without a slug, the path of a page has an empty piece. -/
theorem empty_mem_pieces_list (h : names.slug = "") : "" ∈ Path.pieces (list.path names) := by
  have hslug : IsSlug names.slug := by simp [IsSlug, h]
  rw [pieces_path hslug]
  simp [subfolders, h]

end View.FileKind

namespace Archive

/-! ## Entries -/

section Spots

variable {language : Language} {spots : List Spot} {files : List Artifact}
  (h : AreSpots language spots files)
include h

/-- A file at a place of its own is that of a kind. -/
theorem exists_path_of_areSpots {f : Artifact} (hf : f ∈ files) :
    ∃ s : Spot, FileKind.IsSlug s.names.slug ∧ f.path = s.kind.path s.names := by
  obtain ⟨s, hs, hpath⟩ := exists_of_mem_forall₂ h.path hf
  exact ⟨s, h.slug s hs, hpath⟩

/-- The entry of a file is named by the plain path. -/
theorem entryName?_of_areSpots {f : Artifact} (hf : f ∈ files) :
    entryName? f.path = some (plainPath f.path) := by
  obtain ⟨s, hslug, hpath⟩ := exists_path_of_areSpots h hf
  have hback : '\\' ∉ (s.kind.path s.names).toList := fun hmem =>
    absurd (FileKind.mem_path hslug hmem) (by decide)
  rw [hpath, plainPath_of_isPathOf (FileKind.isPathOf_path hslug s.kind)]
  exact entryName?_of_isPathOf (FileKind.isPathOf_path hslug s.kind) hback

/-- Files at places of their own have paths with steps of their own. -/
theorem nodup_steps_of_areSpots : (files.map fun f => (Path.ofText f.path).steps).Nodup := by
  have hapart := List.pairwise_map.1 (h.pairwise_apart (respecting [] ⟨.root, []⟩))
  refine List.pairwise_map.2 (hapart.imp fun {f g} hfg hsteps => hfg.1 ?_)
  have hplace : place (respecting [] ⟨.root, []⟩) f = place (respecting [] ⟨.root, []⟩) g := by
    rw [place, place, hsteps]
  show place _ f <+: place _ g
  exact hplace ▸ List.prefix_rfl

/-- Files at places of their own have plain paths of their own. -/
theorem nodup_plainPath_of_areSpots : (files.map fun f => plainPath f.path).Nodup := by
  refine List.pairwise_map.2 ((List.pairwise_map.1 (nodup_steps_of_areSpots h)).imp_of_mem
    fun {f g} hf hg hne heq => hne ?_)
  obtain ⟨s, hslug, hpath⟩ := exists_path_of_areSpots h hf
  obtain ⟨s', hslug', hpath'⟩ := exists_path_of_areSpots h hg
  have hsteps := FileKind.isPathOf_path hslug s.kind
  have hsteps' := FileKind.isPathOf_path hslug' s'.kind
  rw [hpath, hpath'] at heq ⊢
  rw [hsteps.ofText, hsteps'.ofText]
  show s.kind.steps s.names = s'.kind.steps s'.names
  rw [← pieces_plainPath hsteps, ← pieces_plainPath hsteps', heq]

/-- A zip file takes the name of the entry as it is, since there is no NUL in it. -/
theorem shortName_plainPath_of_areSpots {f : Artifact} (hf : f ∈ files) :
    Zip.shortName (plainPath f.path) = plainPath f.path := by
  obtain ⟨s, hslug, hpath⟩ := exists_path_of_areSpots h hf
  rw [Zip.shortName, List.takeWhile_eq_self_iff.2 fun c hc => ?_, String.ofList_toList]
  rw [hpath] at hc
  refine bne_iff_ne.2 ?_
  rintro rfl
  exact absurd (FileKind.mem_plainPath hslug hc) (by decide)

/-- The name of the entry has bytes, since it is made of plain characters. -/
theorem isPaired_plainPath_of_areSpots {f : Artifact} (hf : f ∈ files) :
    Text.isPaired (plainPath f.path) = true := by
  obtain ⟨s, hslug, hpath⟩ := exists_path_of_areSpots h hf
  refine Text.isPaired_of_notMem fun hmark => ?_
  rw [hpath] at hmark
  exact absurd (FileKind.mem_plainPath hslug hmark) (by decide)

/-- The entry of a file has bytes when its text has. -/
theorem hasBytes_of_areSpots {f : Artifact} (hf : f ∈ files) :
    hasBytes (plainPath f.path) f.content = Text.isPaired f.content := by
  rw [hasBytes, shortName_plainPath_of_areSpots h hf, isPaired_plainPath_of_areSpots h hf,
    Bool.and_true]

/-- **Files at places of their own have entries of their own**, named by their plain paths, when
the texts of all of them have bytes; otherwise they are not packed. -/
theorem entries_of_areSpots : entries files = if files.all fun f => Text.isPaired f.content then
    .ok (files.map fun f => (plainPath f.path, f.content)) else .error .unencodable := by
  have hbytes : (files.all fun f => hasBytes (plainPath f.path) f.content) =
      files.all fun f => Text.isPaired f.content := by
    rw [Bool.eq_iff_iff, List.all_eq_true, List.all_eq_true]
    exact forall₂_congr fun f hf => by rw [hasBytes_of_areSpots h hf]
  rw [entries_of_nodup (fun _ hf => entryName?_of_areSpots h hf) (nodup_plainPath_of_areSpots h),
    hbytes]

/-- What the entries are when there are any. -/
theorem entries_eq_ok_of_areSpots {es : List (String × String)} : entries files = .ok es ↔
    (∀ f ∈ files, Text.isPaired f.content = true) ∧
      es = files.map fun f => (plainPath f.path, f.content) := by
  rw [entries_of_areSpots h, ← List.all_eq_true]
  split
  · rename_i hpaired
    rw [and_iff_right hpaired, Except.ok.injEq, eq_comm]
  · rename_i hlone
    simp [hlone]

/-- **A zip file can hold small files.** The names and texts of a rendering are far below what the
numbers of a zip file can count, as long as what the contract holds is. -/
theorem keeps_of_areSpots (hcount : files.length ≤ 12)
    (hname : ∀ f ∈ files, (plainPath f.path).toList.length ≤ 10000)
    (hcontent : ∀ f ∈ files, AtMost 10000000 f.content) : Keeps files := by
  intro es hes
  obtain ⟨-, rfl⟩ := (entries_eq_ok_of_areSpots h).1 hes
  have hfile : ∀ f ∈ zipFiles (files.map fun f => (plainPath f.path, f.content)),
      f.shortName = f.name ∧ Text.isPaired f.name = true ∧
        (Zip.nameBytes f.name).length ≤ 40000 ∧ f.bytes.length ≤ 40000000 := by
    intro f hf
    obtain ⟨_, he, rfl⟩ := List.mem_map.1 hf
    obtain ⟨a, ha, rfl⟩ := List.mem_map.1 he
    have hlength := hname a ha
    have hsize : a.content.toList.length ≤ 10000000 := hcontent a ha
    exact ⟨shortName_plainPath_of_areSpots h ha, isPaired_plainPath_of_areSpots h ha,
      Nat.le_trans (Zip.length_nameBytes_le _) (Nat.mul_le_mul_left 4 hlength),
      Nat.le_trans (Zip.length_nameBytes_le a.content) (Nat.mul_le_mul_left 4 hsize)⟩
  refine Zip.keeps_of_fits ⟨fun f hf => (hfile f hf).1, fun f hf => ?_, fun f hf => ?_, ?_⟩
  · rw [(hfile f hf).1]
    exact (hfile f hf).2.1
  · rw [(hfile f hf).1]
    exact Nat.lt_of_le_of_lt (hfile f hf).2.2.1 (by decide)
  -- At most twelve files of this size are far below what the offsets of an archive can count.
  · have hsum := List.sum_le_card_nsmul ((zipFiles (files.map fun f => (plainPath f.path,
      f.content))).map fun f => 81 + 2 * (Zip.nameBytes f.shortName).length + 6 * f.bytes.length)
      240080081 fun n hn => by
        obtain ⟨f, hf, rfl⟩ := List.mem_map.1 hn
        obtain ⟨hwhole, -, hnames, hdata⟩ := hfile f hf
        rw [hwhole]
        omega
    rw [List.length_map, zipFiles, List.length_map, List.length_map, nsmul_eq_mul,
      Nat.cast_id] at hsum
    refine Nat.lt_of_le_of_lt (Zip.length_write_le _) ?_
    rw [zipFiles]
    omega

end Spots

/-! ## Renderings -/

/-- What a text is found under in the archive of a rendering whose texts have bytes. -/
theorem unpack_pack_render {c : Contract} {preset : Preset} {language : Language}
    {withShared : Bool} {files : List Artifact}
    (hfiles : render c preset.name language.word withShared = .ok files)
    (hpaired : ∀ f ∈ files, Text.isPaired f.content = true) (hkeeps : Keeps files)
    (filename : Option String) :
    ∃ a, pack files filename = .ok a ∧
      unpack a.toEntries = .ok (files.map fun f => (plainPath f.path, f.content)) := by
  obtain ⟨_, _, hspots⟩ := areSpots_of_isRendered (.one hfiles)
  exact unpack_pack ((entries_eq_ok_of_areSpots hspots).2 ⟨hpaired, rfl⟩) hkeeps filename

/-- **A rendering is packed exactly when its texts have bytes**: a text that holds half of a pair of
code units ends the packing. -/
theorem exists_pack_render_iff {c : Contract} {preset : Preset} {language : Language}
    {withShared : Bool} {files : List Artifact}
    (hfiles : render c preset.name language.word withShared = .ok files)
    (filename : Option String) :
    (∃ a, pack files filename = .ok a) ↔ ∀ f ∈ files, Text.isPaired f.content = true := by
  obtain ⟨_, _, hspots⟩ := areSpots_of_isRendered (.one hfiles)
  constructor
  · rintro ⟨a, hpack⟩
    obtain ⟨es, hes, -⟩ := bind_eq_ok.1 hpack
    exact ((entries_eq_ok_of_areSpots hspots).1 hes).1
  · intro hpaired
    have hes := (entries_eq_ok_of_areSpots hspots).2 ⟨hpaired, rfl⟩
    exact ⟨_, by rw [pack, hes]; rfl⟩

/-- **The files of a rendering stand at the paths of their kinds**, with or without the shared
libraries. So a statement about the paths of files is one about the paths of kinds. -/
theorem path_artifacts (c : Contract) (layout : Layout) (language : Language)
    (withShared : Bool) :
    List.Forall₂ (fun k a => a.path = k.path (.ofContract c language)) (FileKind.all withShared)
      ((if withShared then sharedArtifacts language else []) ++
        entityArtifacts c layout language) := by
  have hentity := path_entityArtifacts c layout language
  cases withShared with
  | false => exact hentity
  | true => exact List.rel_append (path_sharedArtifacts (.ofContract c language)) hentity

/-- A zip file can hold the files of an entity with little data. -/
theorem keeps_of_render {c : Contract} {preset : Preset} {language : Language} {withShared : Bool}
    {files : List Artifact} (hfiles : render c preset.name language.word withShared = .ok files)
    (hslug : (Naming.slug c.entity).toList.length ≤ 9000)
    (hdata : ∀ k ∈ FileKind.all withShared,
      k.dataLength (.ofContract c language) c preset.layout ≤ 1000000) : Keeps files := by
  obtain ⟨_, _, hspots⟩ := areSpots_of_isRendered (.one hfiles)
  rw [render_eq c (resolvePreset_name preset) (ofWord?_word language)] at hfiles
  split at hfiles
  · obtain rfl := Except.ok.inj hfiles
    have hcontent := atMost_content c preset.layout language withShared
    have hcount : (FileKind.all withShared).length ≤ 12 := by cases withShared <;> decide
    -- The slug bounds the names, and the data of the contract bounds the texts.
    refine keeps_of_areSpots hspots (hcontent.length_eq ▸ hcount) (fun f hf => ?_) fun f hf => ?_
    · obtain ⟨k, -, hpath⟩ :=
        exists_of_mem_forall₂ (path_artifacts c preset.layout language withShared) hf
      have hlength : (k.path (.ofContract c language)).toList.length ≤
          (Naming.slug c.entity).toList.length + 100 := FileKind.atMost_path k
      rw [hpath]
      exact Nat.le_trans (length_plainPath_le _) (by omega)
    · obtain ⟨k, hk, hbound⟩ := exists_of_mem_forall₂ hcontent hf
      have hlength := hdata k hk
      exact hbound.mono (by omega)
  · exact absurd hfiles (by simp)

/-- An entity with one field, whose files have bytes and which a zip file can hold. -/
theorem exists_keeps_titled :
    ∃ c, Contract.build titledSource "Note" (some "plain") = .ok c ∧
      (c.entity = "Note" ∧ c.childTables = []) ∧
      ∀ files, render c Preset.plain.name Language.js.word true = .ok files →
        (∀ f ∈ files, Text.isPaired f.content = true) ∧ Keeps files := by
  obtain ⟨c, hc, heq⟩ := exists_of_map_toOption
    (show (Contract.build titledSource "Note" (some "plain")).toOption.map (fun c =>
      (c.entity, c.childTables.length, decide (TakesUnmarked c Preset.plain.layout .js),
        decide (∀ k ∈ FileKind.all true,
          k.dataLength (.ofContract c .js) c Preset.plain.layout ≤ 1000000))) =
            some ("Note", 0, true, true) by decide +kernel)
  obtain ⟨hentity, hmore⟩ := Prod.mk.inj heq
  obtain ⟨htables, hmore⟩ := Prod.mk.inj hmore
  obtain ⟨hunmarked, hdata⟩ := Prod.mk.inj hmore
  refine ⟨c, hc, ⟨hentity, List.length_eq_zero_iff.1 htables⟩, fun files hfiles =>
    ⟨isPaired_of_render hfiles (of_decide_eq_true hunmarked), ?_⟩⟩
  refine keeps_of_render hfiles ?_ (of_decide_eq_true hdata)
  rw [hentity]
  decide

/-- **A rendering whose archive gives the paths back has a slug.** With an empty slug the list page
has an empty step in its path, and no name of an entry has one. -/
theorem slug_ne_empty_of_lookup {c : Contract} {language : Language} {withShared : Bool}
    {files : List Artifact}
    (hpaths : List.Forall₂ (fun k a => a.path = k.path (.ofContract c language))
      (FileKind.all withShared) files)
    (hlookup : ∀ path, (files.map fun f => (plainPath f.path, f.content)).lookup path =
      (files.map fun f => (f.path, f.content)).lookup path) : Naming.slug c.entity ≠ "" := by
  intro hempty
  have hslug : FileKind.IsSlug (Names.ofContract c language).slug := isSlug_slug c.entity
  have hlist : FileKind.list ∈ FileKind.all withShared :=
    List.mem_append_right _ (by decide)
  obtain ⟨f, hf, hpath⟩ := exists_of_mem_forall₂ hpaths.flip hlist
  have hfound := lookup_ne_none_of_mem (List.mem_map_of_mem (f := fun f : Artifact =>
    (f.path, f.content)) hf)
  rw [← hlookup f.path] at hfound
  -- The path of the list page is found among the plain paths, as that of some file.
  obtain ⟨text, htext⟩ := Option.ne_none_iff_exists'.1 hfound
  obtain ⟨g, hg, heq⟩ := List.mem_map.1 (mem_of_lookup htext)
  obtain ⟨k, -, hgpath⟩ := exists_of_mem_forall₂ hpaths hg
  have hplain : plainPath g.path = f.path := congrArg Prod.fst heq
  have hsteps := FileKind.isPathOf_path hslug k
  rw [← hgpath] at hsteps
  have hmem : "" ∈ Path.pieces (FileKind.list.path (.ofContract c language)) :=
    FileKind.empty_mem_pieces_list hempty
  rw [← hpath, ← hplain] at hmem
  exact absurd (isStep_of_mem_pieces_plainPath hsteps "" hmem) (by decide)

/-- **The archive of a rendering gives each file back, under its path exactly when the name of the
entity has a letter or a digit.** When a contract was built, its rendering in any preset and
language succeeds unless a field of a child table has no key for its name, and is then packed
exactly when the texts of all its files have bytes. What is unpacked are the files in their order,
under their plain paths; and these are the mapping from paths to contents exactly when there is an
ASCII letter or digit in the name, since its slug is empty otherwise. -/
theorem unpack_pack_render_iff {source : Source} {entity : String} {wanted : Option String}
    {c : Contract} (h : Contract.build source entity wanted = .ok c) (preset : Preset)
    (language : Language) (withShared : Bool)
    (hkeeps : ∀ files, render c preset.name language.word withShared = .ok files → Keeps files)
    (filename : Option String) :
    (∀ files, render c preset.name language.word withShared = .ok files →
      ((∃ a, pack files filename = .ok a) ↔ ∀ f ∈ files, Text.isPaired f.content = true) ∧
      ∀ a, pack files filename = .ok a →
        unpack a.toEntries = .ok (files.map fun f => (plainPath f.path, f.content))) ∧
    ((∃ files a out, render c preset.name language.word withShared = .ok files ∧
        pack files filename = .ok a ∧ unpack a.toEntries = .ok out ∧
        ∀ path, out.lookup path = (files.map fun f => (f.path, f.content)).lookup path) ↔
      (∀ t ∈ c.childTables, ∀ f ∈ t.2.fields, f.name.isKey = true) ∧
        (∀ files, render c preset.name language.word withShared = .ok files →
          ∀ f ∈ files, Text.isPaired f.content = true) ∧
        ∃ letter ∈ c.entity.toList, letter.isAlphanum = true) := by
  have hnamed : (∃ letter ∈ c.entity.toList, letter.isAlphanum = true) ↔
      Naming.slug c.entity ≠ "" := by
    simp [Naming.slug_eq_empty_iff]
  rw [hnamed]
  have hslug : FileKind.IsSlug (Names.ofContract c language).slug := isSlug_slug c.entity
  obtain ⟨hrenders, hintact⟩ :=
    isIntact_of_build h (resolvePreset_name preset) (ofWord?_word language) withShared
  have hpaths : ∀ files, render c preset.name language.word withShared = .ok files →
      List.Forall₂ (fun k a => a.path = k.path (.ofContract c language)) (FileKind.all withShared)
        files := fun files hfiles => (hintact files hfiles).imp fun k a ha => ha.1
  have hpacks : ∀ files, render c preset.name language.word withShared = .ok files →
      ((∃ a, pack files filename = .ok a) ↔ ∀ f ∈ files, Text.isPaired f.content = true) :=
    fun _ hfiles => exists_pack_render_iff hfiles filename
  have hunpacks : ∀ files, render c preset.name language.word withShared = .ok files →
      ∀ a, pack files filename = .ok a →
        unpack a.toEntries = .ok (files.map fun f => (plainPath f.path, f.content)) := by
    intro files hfiles a hpack
    obtain ⟨a', hpack', hout⟩ := unpack_pack_render hfiles ((hpacks files hfiles).1 ⟨a, hpack⟩)
      (hkeeps files hfiles) filename
    obtain rfl : a = a' := Except.ok.inj (hpack.symm.trans hpack')
    exact hout
  refine ⟨fun files hfiles => ⟨hpacks files hfiles, hunpacks files hfiles⟩, ?_, ?_⟩
  · rintro ⟨files, a, out, hfiles, hpack, hout, hlookup⟩
    obtain rfl := Except.ok.inj (hout.symm.trans (hunpacks files hfiles a hpack))
    refine ⟨hrenders.1 ⟨files, hfiles⟩, fun files' hfiles' => ?_,
      slug_ne_empty_of_lookup (hpaths files hfiles) hlookup⟩
    obtain rfl : files = files' := Except.ok.inj (hfiles.symm.trans hfiles')
    exact (hpacks files hfiles).1 ⟨a, hpack⟩
  · rintro ⟨hkeys, hpaired, hne⟩
    obtain ⟨files, hfiles⟩ := hrenders.2 hkeys
    obtain ⟨a, hpack⟩ := (hpacks files hfiles).2 (hpaired files hfiles)
    refine ⟨files, a, _, hfiles, hpack, hunpacks files hfiles a hpack, fun path => ?_⟩
    congr 1
    refine List.map_congr_left fun f hf => ?_
    obtain ⟨k, -, hpath⟩ := exists_of_mem_forall₂ (hpaths files hfiles) hf
    rw [hpath, FileKind.plainPath_path hslug hne]

/-- The archive of an entity with one field. -/
theorem unpack_pack_render_iff_titled :
    ∃ c files a out, Contract.build titledSource "Note" (some "plain") = .ok c ∧
      render c "plain" "js" true = .ok files ∧ Keeps files ∧ pack files none = .ok a ∧
      unpack a.toEntries = .ok out ∧
      ∀ path, out.lookup path = (files.map fun f => (f.path, f.content)).lookup path := by
  obtain ⟨c, hc, ⟨hentity, htables⟩, hfitting⟩ := exists_keeps_titled
  obtain ⟨-, hiff⟩ := unpack_pack_render_iff hc .plain .js true
    (fun files hfiles => (hfitting files hfiles).2) none
  have hletter : ∃ letter ∈ c.entity.toList, letter.isAlphanum = true := by
    rw [hentity]
    exact ⟨'N', by decide, by decide⟩
  obtain ⟨files, a, out, hfiles, hpack, hout, hlookup⟩ :=
    hiff.2 ⟨by simp [htables], fun files hfiles => (hfitting files hfiles).1, hletter⟩
  exact ⟨c, files, a, out, hc, hfiles, (hfitting files hfiles).2, hpack, hout, hlookup⟩

end Archive

/-! ## Names of any kind -/

/-- Files at paths of their own that every check accepts. Each has an entry in an archive, named by
its plain path, and below every root without links a place, by the steps of its path; no two files
share an entry or a place. -/
structure ArePlaced (files : List Artifact) : Prop where
  paths : (files.map (·.path)).Nodup
  entry : ∀ f ∈ files, Archive.entryName? f.path = some (plainPath f.path)
  entries : (files.map fun f => plainPath f.path).Nodup
  place : ∀ t o root, HasPlainRoot t o root → ∀ f ∈ files,
    destination t o f.path = .ok (root ++ (Path.ofText f.path).steps)
  places : (files.map fun f => (Path.ofText f.path).steps).Nodup

/-- Files at places of their own are placed. -/
theorem arePlaced_of_areSpots {language : Language} {spots : List Spot} {files : List Artifact}
    (h : AreSpots language spots files) : ArePlaced files where
  paths := nodup_paths (h.pairwise_apart (respecting [] ⟨.root, []⟩))
  entry _ hf := Archive.entryName?_of_areSpots h hf
  entries := Archive.nodup_plainPath_of_areSpots h
  places := Archive.nodup_steps_of_areSpots h
  place t o root hroot f hf := by
    obtain ⟨s, hslug, hpath⟩ := Archive.exists_path_of_areSpots h hf
    have hsteps := FileKind.isPathOf_path hslug s.kind
    rw [hpath, hroot.destination_eq hsteps (FileKind.textFlaw?_steps hslug s.kind), hsteps.ofText]

/-- **Any name of an entity gives safe names and paths.** The slug of a text is empty or has words
of small letters and digits between hyphens, and is its own slug; the name of the component is a
capital with letters and digits behind it. When a contract was built, its rendering in any preset
and language succeeds unless a field of a child table has no key for its name, and its twelve files
are then at paths of their own, with entries and places of their own. -/
theorem arePlaced_of_build :
    (∀ name : String, (Naming.slug name = "" ∨ Naming.IsKebab (Naming.slug name)) ∧
      Naming.slug (Naming.slug name) = Naming.slug name ∧
      Naming.IsPascal (Naming.component name)) ∧
    ∀ (source : Source) (entity : String) (wanted : Option String) (c : Contract),
      Contract.build source entity wanted = .ok c →
      (∀ (preset : Preset) (language : Language),
        (∃ files, render c preset.name language.word true = .ok files) ↔
          ∀ t ∈ c.childTables, ∀ f ∈ t.2.fields, f.name.isKey = true) ∧
      ∀ style word files, render c style word true = .ok files →
        files.length = 12 ∧ ArePlaced files := by
  refine ⟨fun name => ⟨Naming.slug_eq_empty_or_isKebab name, Naming.slug_slug name,
    Naming.isPascal_component name⟩, fun source entity wanted c h => ⟨fun preset language => ?_,
    fun style word files hfiles => ⟨?_, ?_⟩⟩⟩
  · exact (isIntact_of_build h (resolvePreset_name preset) (ofWord?_word language) true).1
  · obtain ⟨language, hword⟩ := ofWord?_of_render hfiles
    obtain ⟨layout, hdocuments⟩ := isDocument_of_render h hfiles hword
    have hcount : (FileKind.all true).length = 12 := by decide
    exact hdocuments.length_eq.symm.trans hcount
  · obtain ⟨language, spots, hspots⟩ := areSpots_of_isRendered (.one hfiles)
    exact arePlaced_of_areSpots hspots

/-- A source that knows an entity without an ASCII letter or digit in its name. -/
def unspelledSource : Source :=
  .ofSchemas (.record [("請求書", .record [
    ("fields", .list [.record [("fieldname", .text "title"), ("fieldtype", .text "Data")]])])])

/-- The root that is a link is one without links on the way. -/
theorem hasPlainRoot_pagedRoot :
    HasPlainRoot pagedRoot (respecting [] ⟨.root, ["other"]⟩) ["dest"] := by
  have hlinkless := isLinkless_pagedRoot.linkless
  have hreal : pagedRoot.IsReal ["dest"] :=
    ⟨by decide, fun l target hl => hlinkless l target (.inl hl)⟩
  have hsound : ∀ e, pagedRoot.resolveSteps 3 [] [] ["other"] ≠ .faulty e := by
    simp [resolveSteps_pagedRoot]
  exact ⟨FileTree.isReal_nil _, FileTree.resolve_eq_ok.2 ⟨hsound,
    (FileTree.resolution_of_full resolveSteps_pagedRoot).symm,
    FileTree.place_ne_linkLoop_of_isReal hreal, by decide⟩, hlinkless⟩

/-- The list page of such an entity, whose path has an empty step, below a root that is a link. -/
theorem arePlaced_of_build_unspelled :
    ∃ c files, Contract.build unspelledSource "請求書" (some "plain") = .ok c ∧
      Naming.slug c.entity = "" ∧ render c "plain" "js" true = .ok files ∧
      (∃ f ∈ files, f.path = "pages//List.js") ∧
      Archive.entryName? "pages//List.js" = some "pages/List.js" ∧
      destination pagedRoot (respecting [] ⟨.root, ["other"]⟩) "pages//List.js" =
        .ok ["dest", "pages", "List.js"] := by
  obtain ⟨c, hc, heq⟩ := exists_of_map_toOption
    (show (Contract.build unspelledSource "請求書" (some "plain")).toOption.map (fun c =>
      (Naming.slug c.entity, c.childTables.length)) = some ("", 0) by decide +kernel)
  obtain ⟨hslug, htables⟩ := Prod.mk.inj heq
  obtain ⟨hrenders, hplaced⟩ := arePlaced_of_build.2 _ _ _ c hc
  obtain ⟨files, hfiles⟩ :=
    (hrenders .plain .js).2 (by simp [List.length_eq_zero_iff.1 htables])
  obtain ⟨-, hplaced⟩ := hplaced "plain" "js" files hfiles
  obtain ⟨layout, hdocuments⟩ := isDocument_of_render hc hfiles (ofWord?_word .js)
  have hlist : FileKind.list ∈ FileKind.all true := by decide
  obtain ⟨f, hf, hdocument⟩ := exists_of_mem_forall₂ hdocuments.flip hlist
  have hpath : f.path = "pages//List.js" := by
    rw [hdocument.path]
    simp only [FileKind.path, FileKind.stem, Names.ofContract, hslug]
    rfl
  have hentry := hplaced.entry f hf
  have hplace := hplaced.place _ _ _ hasPlainRoot_pagedRoot f hf
  rw [hpath] at hentry hplace
  exact ⟨c, files, hc, hslug, hfiles, ⟨f, hf, hpath⟩, hentry.trans (by decide +kernel),
    hplace.trans (by decide +kernel)⟩

end FormScaffold
