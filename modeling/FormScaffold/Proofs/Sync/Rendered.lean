import FormScaffold.Proofs.Sync.Running
import FormScaffold.Proofs.View.Places

/-! # Rendered files in a tree

The files of a rendering, of one contract or of many with slugs of their own, go to places of which
none is on the way to another.

* **`IsRendered`** — the files of a rendering;
* `AreSpots` — files at places of their own;
* `areSpots_of_kinds`, **`areSpots_of_isRendered`** — rendered files are at places of their own;
* `AreSpots.isRelative`, **`AreSpots.pairwise_apart`** — what a run needs to know of them. -/

namespace FormScaffold.Sync

open View

/-! ## Spots -/

/-- A file of a kind for an entity. -/
structure Spot where
  kind : FileKind
  names : Names

/-- Files that differ in their kinds, or in the slugs of their entities. -/
def Spot.Differ (s s' : Spot) : Prop :=
  s.kind = s'.kind → s.kind ∈ FileKind.ofEntity ∧ s.names.slug ≠ s'.names.slug

/-- Files in one language at places of their own. -/
structure AreSpots (language : Language) (spots : List Spot) (files : List Artifact) : Prop where
  path : List.Forall₂ (fun s a => a.path = s.kind.path s.names) spots files
  slug : ∀ s ∈ spots, FileKind.IsSlug s.names.slug
  language : ∀ s ∈ spots, s.names.language = language
  differ : spots.Pairwise Spot.Differ
  owned : ∀ a ∈ files, a.owned.Nodup

/-- Where a file goes. -/
theorem place_of_path {s : Spot} (hslug : FileKind.IsSlug s.names.slug) {a : Artifact}
    (ha : a.path = s.kind.path s.names) (o : Options) :
    place o a = base o ++ s.kind.steps s.names := by
  rw [place, ha, (FileKind.isPathOf_path hslug s.kind).ofText]

/-- The root of the examples can name files. -/
theorem textFlaw?_out :
    ∀ name ∈ (respecting [] (Path.ofText "out")).root.steps, textFlaw? name = none := by
  have hsteps : (respecting [] (Path.ofText "out")).root.steps = ["out"] := by decide
  rw [hsteps]
  exact List.forall_mem_singleton.2 (textFlaw?_of_notMem (by decide) (by decide))

/-- The root of the examples fits everywhere. -/
theorem isModest_base_out : ∀ name ∈ base (respecting [] (Path.ofText "out")), IsModest name := by
  have hbase : base (respecting [] (Path.ofText "out")) = ["out"] := by decide
  rw [hbase]
  exact List.forall_mem_singleton.2 ⟨by decide, by decide, by decide⟩

namespace AreSpots

variable {language : Language} {spots : List Spot} {files : List Artifact}
  (h : AreSpots language spots files)
include h

/-- Paths of names lead to the files. -/
theorem isRelative : ∀ a ∈ files, IsRelative a := by
  intro a ha
  obtain ⟨s, hs, hpath⟩ := exists_of_mem_forall₂ h.path ha
  have hpathOf := FileKind.isPathOf_path (h.slug s hs) s.kind
  rw [IsRelative, hpath, hpathOf.ofText]
  exact hpathOf

/-- Files whose texts have bytes can be written wherever their places allow it, since each of them
names its regions once. -/
theorem isWritable (hpaired : ∀ a ∈ files, Text.isPaired a.content = true) :
    ∀ a ∈ files, IsWritable a :=
  fun a ha => isWritable_of_nodup (hpaired a ha) (h.owned a ha)

/-- **The places of the files are apart.** Each kind of file has a directory or a name of its own,
and different slugs lead to different directories. -/
theorem pairwise_apart (o : Options) : (files.map (renewalOf o)).Pairwise Renewal.Apart := by
  obtain ⟨hpath, hslug, hlanguage, hdiffer, howned⟩ := h
  clear howned
  -- Spots with one place are not different, whichever stands first.
  have hle : ∀ {s s' : Spot} {a b : Artifact}, FileKind.IsSlug s.names.slug →
      FileKind.IsSlug s'.names.slug → s.names.language = s'.names.language →
      a.path = s.kind.path s.names → b.path = s'.kind.path s'.names →
      place o a <+: place o b →
      s.kind = s'.kind ∧ (s.kind ∈ FileKind.ofEntity → s.names.slug = s'.names.slug) := by
    intro s s' a b hs hs' hsame ha hb hab
    rw [place_of_path hs ha, place_of_path hs' hb, List.prefix_append_right_inj] at hab
    exact FileKind.eq_of_steps hs hs' hsame hab
  induction hpath with
  | nil => exact .nil
  | @cons s a spots files ha hpath ih =>
    obtain ⟨hs, hslug⟩ := List.forall_mem_cons.1 hslug
    obtain ⟨hl, hlanguage⟩ := List.forall_mem_cons.1 hlanguage
    obtain ⟨hd, hdiffer⟩ := List.pairwise_cons.1 hdiffer
    refine List.pairwise_cons.2 ⟨fun r hr => ?_, ih hslug hlanguage hdiffer⟩
    obtain ⟨b, hb, rfl⟩ := List.mem_map.1 hr
    obtain ⟨s', hs', hb⟩ := exists_of_mem_forall₂ hpath hb
    have hsame : s.names.language = s'.names.language := hl.trans (hlanguage s' hs').symm
    constructor
    · intro hab
      obtain ⟨hkind, hslug'⟩ := hle hs (hslug s' hs') hsame ha hb hab
      obtain ⟨hentity, hother⟩ := hd s' hs' hkind
      exact hother (hslug' hentity)
    · intro hba
      obtain ⟨hkind, hslug'⟩ := hle (hslug s' hs') hs hsame.symm hb ha hba
      obtain ⟨hentity, hother⟩ := hd s' hs' hkind.symm
      exact hother (hslug' (hkind ▸ hentity)).symm

end AreSpots

/-- Artifacts at places that are apart have paths of their own. -/
theorem nodup_paths {o : Options} {as : List Artifact}
    (h : (as.map (renewalOf o)).Pairwise Renewal.Apart) : (as.map (·.path)).Nodup := by
  rw [List.pairwise_map] at h
  refine List.pairwise_map.2 (h.imp fun {a b} hapart heq => hapart.1 ?_)
  have hplace : place o a = place o b := by rw [place, place, heq]
  show place o a <+: place o b
  exact hplace ▸ List.prefix_rfl

/-! ## Renderings -/

/-- The files of one entity are at places of their own. -/
theorem areSpots_of_kinds {names : Names} (hslug : FileKind.IsSlug names.slug)
    {kinds : List FileKind} (hkinds : kinds.Nodup) {files : List Artifact}
    (hfiles : List.Forall₂ (fun k a => a.path = k.path names) kinds files)
    (howned : ∀ a ∈ files, a.owned.Nodup) :
    AreSpots names.language (kinds.map (⟨·, names⟩)) files where
  path := List.forall₂_map_left_iff.2 hfiles
  slug s hs := by
    obtain ⟨k, -, rfl⟩ := List.mem_map.1 hs
    exact hslug
  language s hs := by
    obtain ⟨k, -, rfl⟩ := List.mem_map.1 hs
    rfl
  differ := List.pairwise_map.2 (hkinds.imp fun hne heq => absurd heq hne)
  owned := howned

/-- The shared libraries stand at the paths of their kinds. -/
theorem path_sharedArtifacts (names : Names) :
    List.Forall₂ (fun k a => a.path = k.path names) FileKind.shared
      (sharedArtifacts names.language) :=
  .cons rfl (.cons rfl (.cons rfl (.cons rfl .nil)))

/-- The files of an entity stand at the paths of their kinds. -/
theorem path_entityArtifacts (c : Contract) (layout : Layout) (language : Language) :
    List.Forall₂ (fun k a => a.path = k.path (.ofContract c language)) FileKind.ofEntity
      (entityArtifacts c layout language) :=
  .cons rfl (.cons rfl (.cons rfl (.cons rfl (.cons rfl (.cons rfl (.cons rfl (.cons rfl
    .nil)))))))

/-- A shared file names its only region. -/
theorem nodup_owned_sharedArtifacts (language : Language) :
    ∀ a ∈ sharedArtifacts language, a.owned.Nodup := by
  intro a ha
  obtain ⟨f, -, rfl⟩ := List.mem_map.1 ha
  exact List.nodup_singleton _

/-- A file of an entity names the regions that are found in its text, whatever the contract puts
there. -/
theorem nodup_owned_entityArtifacts (c : Contract) (layout : Layout) (language : Language) :
    ∀ a ∈ entityArtifacts c layout language, a.owned.Nodup := by
  have hcontent : ∀ a ∈ entityArtifacts c layout language,
      ∃ path content warnings, a = .ofContent path content warnings := by
    simp only [entityArtifacts, List.forall_mem_cons]
    exact ⟨⟨_, _, _, rfl⟩, ⟨_, _, _, rfl⟩, ⟨_, _, _, rfl⟩, ⟨_, _, _, rfl⟩, ⟨_, _, _, rfl⟩,
      ⟨_, _, _, rfl⟩, ⟨_, _, _, rfl⟩, ⟨_, _, _, rfl⟩, List.forall_mem_nil _⟩
  intro a ha
  obtain ⟨path, content, warnings, rfl⟩ := hcontent a ha
  exact (Region.sound_scan content.toList).nodup

/-- The files of a rendering: those of one contract, or those of contracts with slugs of their
own. -/
inductive IsRendered : List Artifact → Prop
  | one {c : Contract} {style word : String} {withShared : Bool} {files : List Artifact}
    (h : render c style word withShared = .ok files) : IsRendered files
  | each {cs : List Contract} {style word : String} {files : List Artifact}
    (hslugs : (cs.map fun c => Naming.slug c.entity).Nodup)
    (h : renderEach (cs.map .ok) style word = .ok files) : IsRendered files

/-- What is rendered for an entity are its files. -/
theorem eq_of_renderEntity {c : Contract} {layout : Layout} {language : Language}
    {files : List Artifact} (h : renderEntity c layout language = .ok files) :
    files = entityArtifacts c layout language := by
  rw [renderEntity_eq] at h
  split at h
  · exact (Except.ok.inj h).symm
  · exact absurd h (by simp)

/-- The spots of many entities, without those of the shared files. -/
def entitySpots (cs : List Contract) (language : Language) : List Spot :=
  cs.flatMap fun c => FileKind.ofEntity.map (⟨·, .ofContract c language⟩)

/-- The files of entities with slugs of their own are at places of their own. -/
theorem areSpots_entities {cs : List Contract}
    (hslugs : (cs.map fun c => Naming.slug c.entity).Nodup) {language : Language}
    {files : List (List Artifact)}
    (hfiles : List.Forall₂ (fun c own => ∃ layout, own = entityArtifacts c layout language) cs
      files) :
    AreSpots language (entitySpots cs language) files.flatten := by
  induction hfiles with
  | nil => exact ⟨.nil, by simp [entitySpots], by simp [entitySpots], .nil, by simp⟩
  | @cons c own cs files hown hfiles ih =>
    obtain ⟨layout, rfl⟩ := hown
    obtain ⟨hnew, hslugs⟩ := List.nodup_cons.1 hslugs
    have hrest := ih hslugs
    have hfirst : AreSpots language (FileKind.ofEntity.map (⟨·, .ofContract c language⟩))
        (entityArtifacts c layout language) :=
      @areSpots_of_kinds (.ofContract c language) (isSlug_slug c.entity) _ (by decide) _
        (path_entityArtifacts c layout language) (nodup_owned_entityArtifacts c layout language)
    rw [entitySpots, List.flatMap_cons, List.flatten_cons, ← entitySpots]
    refine ⟨List.rel_append hfirst.path hrest.path, ?_, ?_, ?_,
      List.forall_mem_append.2 ⟨hfirst.owned, hrest.owned⟩⟩
    · exact List.forall_mem_append.2 ⟨hfirst.slug, hrest.slug⟩
    · exact List.forall_mem_append.2 ⟨hfirst.language, hrest.language⟩
    · refine List.pairwise_append.2 ⟨hfirst.differ, hrest.differ, fun s hs s' hs' _ => ?_⟩
      obtain ⟨k, hk, rfl⟩ := List.mem_map.1 hs
      obtain ⟨c', hc', hs'⟩ := List.mem_flatMap.1 hs'
      obtain ⟨k', -, rfl⟩ := List.mem_map.1 hs'
      -- Two spots with one kind and one slug would be of the same entity.
      refine ⟨hk, fun hsame => hnew ?_⟩
      exact List.mem_map.2 ⟨c', hc', hsame.symm⟩

/-- Shared files in front of those of entities are at places of their own. -/
theorem AreSpots.shared {language : Language} {cs : List Contract} {files : List Artifact}
    (h : AreSpots language (entitySpots cs language) files) :
    ∃ spots, AreSpots language spots (sharedArtifacts language ++ files) := by
  -- The shared files are the same for all entities.
  have hslug : FileKind.IsSlug (⟨"", "", "", language⟩ : Names).slug := by
    intro c hc
    exact absurd hc (by simp)
  have hshared := areSpots_of_kinds hslug (show FileKind.shared.Nodup by decide)
    (path_sharedArtifacts ⟨"", "", "", language⟩) (nodup_owned_sharedArtifacts language)
  refine ⟨_, List.rel_append hshared.path h.path, ?_, ?_, ?_,
    List.forall_mem_append.2 ⟨hshared.owned, h.owned⟩⟩
  · exact List.forall_mem_append.2 ⟨hshared.slug, h.slug⟩
  · exact List.forall_mem_append.2 ⟨hshared.language, h.language⟩
  · refine List.pairwise_append.2 ⟨hshared.differ, h.differ, fun s hs s' hs' hkind => ?_⟩
    obtain ⟨k, hk, rfl⟩ := List.mem_map.1 hs
    obtain ⟨c, -, hs'⟩ := List.mem_flatMap.1 hs'
    obtain ⟨k', hk', rfl⟩ := List.mem_map.1 hs'
    have hkinds : ∀ k ∈ FileKind.shared, k ∉ FileKind.ofEntity := by decide
    exact absurd (show k ∈ FileKind.ofEntity from (show k = k' from hkind) ▸ hk') (hkinds k hk)

/-- **Rendered files are at places of their own.** So each of them is synced as if it were alone. -/
theorem areSpots_of_isRendered {files : List Artifact} (h : IsRendered files) :
    ∃ language spots, AreSpots language spots files := by
  cases h with
  | @one c style word withShared _ h =>
    obtain ⟨language, -, h⟩ := bind_eq_ok.1 h
    obtain ⟨layout, -, h⟩ := bind_eq_ok.1 h
    obtain ⟨own, hown, hok⟩ := bind_eq_ok.1 h
    -- A rendering of one contract is that of a list of one, with or without the shared files.
    obtain rfl := eq_of_renderEntity hown
    have hentity := @areSpots_entities [c] (by simp) language _ (.cons ⟨layout, rfl⟩ .nil)
    rw [List.flatten_singleton] at hentity
    rw [← Except.ok.inj hok]
    cases withShared with
    | false => exact ⟨_, _, hentity⟩
    | true =>
      obtain ⟨spots, hspots⟩ := hentity.shared
      exact ⟨_, spots, hspots⟩
  | @each cs style word _ hslugs h =>
    obtain ⟨language, -, h⟩ := bind_eq_ok.1 h
    obtain ⟨own, hown, hok⟩ := bind_eq_ok.1 h
    have hfiles : List.Forall₂ (fun c own => ∃ layout, own = entityArtifacts c layout language) cs
        own := by
      refine (List.forall₂_map_left_iff.1 (mapM_eq_ok.1 hown)).imp fun c own hc => ?_
      obtain ⟨c', hbuilt, hc⟩ := bind_eq_ok.1 hc
      obtain rfl : c = c' := Except.ok.inj hbuilt
      obtain ⟨layout, -, hc⟩ := bind_eq_ok.1 hc
      exact ⟨layout, eq_of_renderEntity hc⟩
    obtain ⟨spots, hspots⟩ := (areSpots_entities hslugs hfiles).shared
    rw [← Except.ok.inj hok]
    exact ⟨language, spots, hspots⟩

end FormScaffold.Sync
