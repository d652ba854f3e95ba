import FormScaffold.Proofs.Sync.Rendered
import Mathlib.Data.List.Nodup

/-! # Files of many entities

Entities are rendered together with the shared files, each at paths made from its slug. The slug
joins the words of the name, in small letters, so that names that are written apart or together,
or in other letters, share it.

* **`FileKind.path_eq_path_iff`** — the path of a file says its kind, and the slug of its entity;
* `map_path_of_renderEach` — the paths of what is rendered;
* **`nodup_paths_iff`** — they are apart when the names have words of their own;
* **`paths_of_renderEach`** — when contracts are rendered together, and what is then at one path. -/

namespace FormScaffold.View

/-! ## Paths of the files of an entity -/

/-- Paths of the files of contracts in one language are one path when the kind is the same, and, of
files of an entity, the slug. -/
theorem FileKind.path_eq_path_iff {c c' : Contract} {language : Language} {k k' : FileKind} :
    k.path (.ofContract c language) = k'.path (.ofContract c' language) ↔
      k = k' ∧ (k ∈ ofEntity → Naming.slug c.entity = Naming.slug c'.entity) := by
  have hslug : IsSlug (Names.ofContract c language).slug := isSlug_slug c.entity
  have hslug' : IsSlug (Names.ofContract c' language).slug := isSlug_slug c'.entity
  constructor
  · intro hpath
    have hsteps := (isPathOf_path hslug k).ofText
    rw [hpath, (isPathOf_path hslug' k').ofText] at hsteps
    exact eq_of_steps hslug hslug' rfl ((Path.mk.inj hsteps).2 ▸ List.prefix_rfl)
  · rintro ⟨rfl, hsame⟩
    cases k <;> simp only [path, stem, Names.ofContract] <;> rw [hsame (by decide)]

/-- The paths of the files of an entity. -/
def entityPaths (language : Language) (c : Contract) : List String :=
  FileKind.ofEntity.map (·.path (.ofContract c language))

/-- The files of an entity stand at its paths. -/
theorem map_path_entityArtifacts (c : Contract) (layout : Layout) (language : Language) :
    (entityArtifacts c layout language).map (·.path) = entityPaths language c :=
  map_eq_map_of_forall₂ (Sync.path_entityArtifacts c layout language)

variable (language : Language)

/-- The path of every kind of file is among the paths of the entity. -/
theorem path_mem_entityPaths {k : FileKind} (hk : k ∈ FileKind.ofEntity) (c : Contract) :
    k.path (.ofContract c language) ∈ entityPaths language c := List.mem_map_of_mem hk

/-- No two files of an entity stand at one path. -/
theorem nodup_entityPaths (c : Contract) : (entityPaths language c).Nodup := by
  have hkinds : FileKind.ofEntity.Nodup := by decide
  exact hkinds.map fun _ _ hpath => (FileKind.path_eq_path_iff.1 hpath).1

/-- The files of two entities have paths of their own when the names have words of their own. -/
theorem disjoint_entityPaths_iff (c c' : Contract) :
    (entityPaths language c).Disjoint (entityPaths language c') ↔
      Naming.words c.entity ≠ Naming.words c'.entity := by
  rw [ne_eq, ← Naming.slug_eq_slug_iff]
  constructor
  · intro hdisjoint hslug
    have hroutes : FileKind.routes.path (.ofContract c language) =
        FileKind.routes.path (.ofContract c' language) :=
      FileKind.path_eq_path_iff.2 ⟨rfl, fun _ => hslug⟩
    have hmem : FileKind.routes ∈ FileKind.ofEntity := by decide
    have hother := path_mem_entityPaths language hmem c'
    rw [← hroutes] at hother
    exact hdisjoint (path_mem_entityPaths language hmem c) hother
  · intro hslug path hpath hpath'
    obtain ⟨k, hk, rfl⟩ := List.mem_map.1 hpath
    obtain ⟨k', -, heq⟩ := List.mem_map.1 hpath'
    obtain ⟨-, hsame⟩ := FileKind.path_eq_path_iff.1 heq.symm
    exact hslug (hsame hk)

/-- The paths of shared files are none of an entity. -/
theorem path_notMem_entityPaths {a : Artifact} (ha : a ∈ sharedArtifacts language)
    (c : Contract) : a.path ∉ entityPaths language c := by
  intro hmem
  obtain ⟨k, hk, hpath⟩ := exists_of_mem_forall₂
    (Sync.path_sharedArtifacts (.ofContract c language)) ha
  obtain ⟨k', hk', hpath'⟩ := List.mem_map.1 hmem
  obtain ⟨rfl, -⟩ := FileKind.path_eq_path_iff.1 (hpath'.trans hpath)
  have hkinds : ∀ k ∈ FileKind.shared, k ∉ FileKind.ofEntity := by decide
  exact hkinds k' hk hk'

/-- No two shared libraries stand at one path. -/
theorem nodup_sharedPaths : ((sharedArtifacts language).map (·.path)).Nodup := by
  cases language <;> decide +kernel

/-- **The paths of entities are different just when their words are.** The slug is part of each
path, and two slugs are one just when their words are. -/
theorem nodup_entityPaths_iff (cs : List Contract) :
    (cs.flatMap (entityPaths language)).Nodup ↔
      (cs.map fun c => Naming.words c.entity).Nodup := by
  have hwords : (cs.map fun c => Naming.words c.entity).Nodup ↔
      cs.Pairwise fun c c' => Naming.words c.entity ≠ Naming.words c'.entity := List.pairwise_map
  rw [List.nodup_flatMap, hwords]
  constructor
  · rintro ⟨-, h⟩
    exact h.imp fun hdisjoint => (disjoint_entityPaths_iff language _ _).1 hdisjoint
  · intro h
    exact ⟨fun c _ => nodup_entityPaths language c,
      h.imp fun hne => (disjoint_entityPaths_iff language _ _).2 hne⟩

/-! ## Renderings of many entities -/

section Rendering

variable {language} {cs : List Contract} {preset : Preset} {files : List Artifact}
  (h : renderEach (cs.map .ok) preset.name language.word = .ok files)
include h

/-- The shared libraries come first, and then the files of each entity. -/
theorem map_path_of_renderEach : files.map (·.path) =
    (sharedArtifacts language).map (·.path) ++ cs.flatMap (entityPaths language) := by
  rw [renderEach_eq cs (resolvePreset_name preset) (ofWord?_word language)] at h
  split at h
  · rw [← Except.ok.inj h, List.map_append, List.map_flatten, List.map_map, ← List.flatMap_def]
    simp only [Function.comp_def, map_path_entityArtifacts]
  · exact absurd h (by simp)

/-- Shared files have paths that no other file has. -/
theorem count_path_shared {a : Artifact} (ha : a ∈ sharedArtifacts language) :
    (files.map (·.path)).count a.path = 1 := by
  have hother : a.path ∉ cs.flatMap (entityPaths language) := by
    intro hmem
    obtain ⟨c, -, hmem⟩ := List.mem_flatMap.1 hmem
    exact path_notMem_entityPaths language ha c hmem
  rw [map_path_of_renderEach h, List.count_append, List.count_eq_zero_of_not_mem hother]
  exact List.count_eq_one_of_mem (nodup_sharedPaths language) (List.mem_map_of_mem ha)

/-- **No two files that are rendered stand at one path just when no two entities have the same
words.** The shared libraries stand in a directory of their own, where no entity has a file. -/
theorem nodup_paths_iff :
    (files.map (·.path)).Nodup ↔ (cs.map fun c => Naming.words c.entity).Nodup := by
  have hapart : ((sharedArtifacts language).map (·.path)).Disjoint
      (cs.flatMap (entityPaths language)) := by
    intro path hshared hmem
    obtain ⟨a, ha, rfl⟩ := List.mem_map.1 hshared
    obtain ⟨c, -, hmem⟩ := List.mem_flatMap.1 hmem
    exact path_notMem_entityPaths language ha c hmem
  rw [map_path_of_renderEach h, List.nodup_append', nodup_entityPaths_iff]
  exact ⟨fun hall => hall.2.1, fun hwords => ⟨nodup_sharedPaths language, hwords, hapart⟩⟩

end Rendering

/-- **Entities collide in one tree when their names have the same words.** Contracts are rendered
together if and only if every name that keeps something is a key. No other file has the path of a
shared file; no two files have one path when the names of the entities have words of their own; and
names that have words at all must have words of their own for that. -/
theorem paths_of_renderEach (cs : List Contract) (preset : Preset) :
    ((∃ files, renderEach (cs.map .ok) preset.name language.word = .ok files) ↔
      ∀ c ∈ cs, ∀ v ∈ keptNames c, v.isKey = true) ∧
    ∀ files, renderEach (cs.map .ok) preset.name language.word = .ok files →
      (∀ a ∈ sharedArtifacts language, (files.map (·.path)).count a.path = 1) ∧
      ((cs.map fun c => Naming.words c.entity).Nodup → (files.map (·.path)).Nodup) ∧
      ((∀ c ∈ cs, Naming.words c.entity ≠ []) → (files.map (·.path)).Nodup →
        (cs.map fun c => Naming.words c.entity).Nodup) := by
  constructor
  · rw [renderEach_eq cs (resolvePreset_name preset) (ofWord?_word language)]
    split
    · rename_i hkeys
      simp only [List.all_eq_true] at hkeys
      exact iff_of_true ⟨_, rfl⟩ hkeys
    · rename_i hkeys
      simp only [List.all_eq_true] at hkeys
      exact iff_of_false (by simp) hkeys
  · intro files hfiles
    exact ⟨fun a ha => count_path_shared hfiles ha, (nodup_paths_iff hfiles).2,
      fun _ => (nodup_paths_iff hfiles).1⟩

/-- A source that knows entities of which two are called by the same words. -/
def ordersSource : Source :=
  let titled : Value := .record [
    ("fields", .list [.record [("fieldname", .text "title"), ("fieldtype", .text "Data")]])]
  .ofSchemas (.record [("Sales Order", titled), ("SalesOrder", titled), ("Invoice", titled)])

/-- An entity of the source is built under its name, with names that can be keys. -/
theorem exists_build_orders {entity : String}
    (h : (Contract.build ordersSource entity (some "plain")).toOption.map (fun c =>
      (c.entity, (keptNames c).all Value.isKey)) = some (entity, true)) :
    ∃ c, Contract.build ordersSource entity (some "plain") = .ok c ∧ c.entity = entity ∧
      ∀ v ∈ keptNames c, v.isKey = true := by
  obtain ⟨c, hbuild, heq⟩ := exists_of_map_toOption h
  obtain ⟨hentity, hkept⟩ := Prod.mk.inj heq
  exact ⟨c, hbuild, hentity, List.all_eq_true.1 hkept⟩

/-- Two of them are rendered together, with paths of their own. -/
theorem paths_of_renderEach_orders :
    ∃ c c' files, Contract.build ordersSource "Sales Order" (some "plain") = .ok c ∧
      Contract.build ordersSource "Invoice" (some "plain") = .ok c' ∧
      renderEach [.ok c, .ok c'] "plain" "js" = .ok files ∧ (files.map (·.path)).Nodup := by
  obtain ⟨c, hbuild, hentity, hkeys⟩ := exists_build_orders
    (show _ = some ("Sales Order", true) by decide +kernel)
  obtain ⟨c', hbuild', hentity', hkeys'⟩ := exists_build_orders
    (show _ = some ("Invoice", true) by decide +kernel)
  obtain ⟨hrenders, hpaths⟩ := paths_of_renderEach .js [c, c'] .plain
  obtain ⟨files, hfiles⟩ := hrenders.2 (by simpa using ⟨hkeys, hkeys'⟩)
  refine ⟨c, c', files, hbuild, hbuild', hfiles, (hpaths files hfiles).2.1 ?_⟩
  simp only [List.map_cons, List.map_nil, hentity, hentity']
  decide +kernel

/-- **Entities with different names can collide**: two of them have the same words. Their names
differ in spacing alone, and the files of the one are returned with the paths of the other. -/
theorem not_nodup_paths_orders :
    ∃ c c' files, Contract.build ordersSource "Sales Order" (some "plain") = .ok c ∧
      Contract.build ordersSource "SalesOrder" (some "plain") = .ok c' ∧ c.entity ≠ c'.entity ∧
      renderEach [.ok c, .ok c'] "plain" "js" = .ok files ∧ ¬(files.map (·.path)).Nodup := by
  obtain ⟨c, hbuild, hentity, hkeys⟩ := exists_build_orders
    (show _ = some ("Sales Order", true) by decide +kernel)
  obtain ⟨c', hbuild', hentity', hkeys'⟩ := exists_build_orders
    (show _ = some ("SalesOrder", true) by decide +kernel)
  have hrender := renderEach_eq [c, c'] (resolvePreset_name .plain) (ofWord?_word .js)
  rw [if_pos (by simpa using ⟨hkeys, hkeys'⟩)] at hrender
  refine ⟨c, c', _, hbuild, hbuild', by rw [hentity, hentity']; decide, hrender, ?_⟩
  rw [@nodup_paths_iff .js [c, c'] .plain _ hrender]
  simp only [List.map_cons, List.map_nil, hentity, hentity']
  decide +kernel

end FormScaffold.View
