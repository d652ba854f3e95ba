import Mathlib.Data.List.Infix
import FormScaffold.Proofs.Archive.Rendered
import FormScaffold.Proofs.Sync.Locality
import FormScaffold.Proofs.View.Rendering

/-! # Runs into an empty root

A run into a root in which nothing stands creates its artifacts there, and nothing else, as far as
the file system takes their paths: names can be too long, and so can whole paths. What is unpacked
from the archive of a rendering is the same tree.

* `IsEmptyRoot` — a root that is empty, or still to be made;
* `runEach_creates` — every artifact is created when all of them can be stored;
* `runEach_keepsOut` — an artifact that cannot be stored is not;
* `files_runEach_wayTo_iff` — the files below the root when nothing else stood in the tree;
* **`files_run_iff`** — the files below the root after a run;
* **`delivers_iff_isStorable`** — the archive of a rendering and a run deliver the same tree exactly
  when every file can be stored;
* `not_delivers_long` — an archive with files that a run does not leave. -/

namespace FormScaffold

/-! ## Empty roots -/

namespace FileTree

/-- The tree of the directories on the way to a location, and there. -/
def wayTo (loc : Location) : FileTree := ⟨loc.inits.map fun l => (l, .directory)⟩

/-- On the way to a location stand directories, and nothing stands elsewhere. -/
theorem item?_wayTo (loc l : Location) :
    (wayTo loc).item? l = if l <+: loc then some .directory else none := by
  have hlookup : ∀ ls : List Location,
      (ls.map fun l => (l, Item.directory)).lookup l =
        if l ∈ ls then some .directory else none := by
    intro ls
    induction ls with
    | nil => rfl
    | cons m ls ih =>
      rw [List.map_cons, List.lookup_cons, ih]
      by_cases hl : l = m <;> simp [hl, beq_eq_false_iff_ne.2]
  by_cases hl : l = []
  · rw [hl, item?_nil, if_pos List.nil_prefix]
  · rw [item?, if_neg hl, wayTo, hlookup]
    simp only [List.mem_inits]

/-- It is the tree of the root alone with the way paved. -/
theorem isSimple_wayTo (loc : Location) : Contents.IsSimple (wayTo loc).item? := by
  have hpaved : (wayTo loc).item? = Contents.paved FileTree.empty.item? loc := by
    funext l
    rw [item?_wayTo, Contents.paved]
    by_cases hl : l = []
    · simp [hl]
    · rw [show FileTree.empty.item? l = none from if_neg hl]
  rw [hpaved]
  exact Contents.isSimple_empty.paved loc

/-- There are no files in it. -/
theorem wayTo_ne_file (loc l : Location) (bytes : ByteArray) :
    (wayTo loc).item? l ≠ some (.file bytes) := by
  rw [item?_wayTo]
  split <;> simp

end FileTree

namespace Sync

open FileTree

/-- The root is a directory in which nothing stands, or is still to be made: up to some point there
are directories on the way to it, and then there is nothing. -/
structure IsEmptyRoot (t : FileTree) (o : Options) (root : Location) : Prop where
  resolved : t.resolve o.current o.root = .ok (pathOf root)
  names : ∀ name ∈ root, IsName name
  made : ∃ made, made <+: root ∧
    ∀ l, Near root l → t.item? l = if l <+: made then some .directory else none

/-- An empty root is mirrored by the directories on the way to it. -/
theorem IsEmptyRoot.exists_mirrors {t : FileTree} {o : Options} {root : Location}
    (h : IsEmptyRoot t o root) :
    ∃ made, made <+: root ∧ Mirrors o (pathOf root) t (wayTo made) := by
  obtain ⟨made, hmade, hitem⟩ := h.made
  refine ⟨made, hmade, ⟨fun l hl => ?_, fun l target hl => ?_⟩, isSimple_wayTo made, h.resolved⟩
  · rw [item?_wayTo, hitem l hl]
  · rw [hitem l hl]
    split <;> simp

/-! ## Artifacts that can be stored -/

/-- The file system takes the path of an artifact below the root: the names on the way are short
enough, and so is the whole path, and there is no NUL in it. -/
def IsStorable (root : Location) (a : Artifact) : Prop :=
  HasNames (root ++ (Path.ofText a.path).steps) ∧
    (pathOf (root ++ (Path.ofText a.path).steps)).flaw? = none

instance (root : Location) (a : Artifact) : Decidable (IsStorable root a) :=
  inferInstanceAs (Decidable (_ ∧ _))

/-- Whether the file of a kind can be stored depends on the names on the way to it. -/
theorem isStorable_iff {names : View.Names} (hslug : View.FileKind.IsSlug names.slug)
    {k : View.FileKind} {a : Artifact} (hpath : a.path = k.path names) {root : Location} :
    IsStorable root a ↔
      HasNames (root ++ k.steps names) ∧ (pathOf (root ++ k.steps names)).flaw? = none := by
  rw [IsStorable, hpath, (View.FileKind.isPathOf_path hslug k).ofText]

/-- What is reported of an artifact that is created. -/
def createdReport (a : Artifact) : MergeResult := ⟨a.path, .created, none, ownedRegions a, []⟩

section Run

variable {o : Options} (hcurrent : ∀ name ∈ o.current, IsName name) (hreal : o.dryRun = false)
  (hclean : ∀ name ∈ o.root.steps, textFlaw? name = none)
include hcurrent hreal

include hclean in
/-- **A run creates its artifacts** where nothing stands, when all of them can be stored and have
bytes. The directories below the root are made on the way, and no artifact is in the way of another.
-/
theorem runEach_creates (stopOnError : Bool) {t : FileTree} (h : Contents.IsSimple t.item?)
    {as : List Artifact} (hrelative : ∀ a ∈ as, IsRelative a)
    (hapart : (as.map (renewalOf o)).Pairwise Renewal.Apart)
    (hpaired : ∀ a ∈ as, Text.isPaired a.content = true)
    (hstorable : ∀ a ∈ as, IsStorable (base o) a)
    (hfree : ∀ a ∈ as, ¬Contents.IsBlocked t.item? (place o a) ∧ t.item? (place o a) = none) :
    ∃ t' : FileTree, runEach o stopOnError t as = ⟨t', .ok (as.map createdReport)⟩ ∧
      t'.item? = Renewal.renew (as.map (renewalOf o)) t.item? := by
  induction as generalizing t with
  | nil => exact ⟨t, rfl, rfl⟩
  | cons a as ih =>
    obtain ⟨hfirst, hapart⟩ := List.pairwise_cons.1 hapart
    obtain ⟨ha, hrelative⟩ := List.forall_mem_cons.1 hrelative
    obtain ⟨hbytes, hpaired⟩ := List.forall_mem_cons.1 hpaired
    obtain ⟨⟨hnames, hflaw⟩, hstorable⟩ := List.forall_mem_cons.1 hstorable
    obtain ⟨⟨hway, hvacant⟩, hfree⟩ := List.forall_mem_cons.1 hfree
    have hplace : destination t o a.path = .ok (place o a) :=
      destination_of_resolve h hcurrent ha.ofText ha.names ha.ne_nil hclean
        (Path.flaw?_eq_none.1 hflaw).1
    have hne : place o a ≠ [] := by simp [place, ha.ne_nil]
    obtain ⟨-, t₁, hfile, ht₁⟩ :=
      file_of_isOpen h hplace hreal hne ⟨_, hplace, hflaw, hnames, hway⟩
    have hfiled : filed o.strategy a none = .ok (createdReport a) := if_pos hbytes
    rw [hvacant, hfiled] at hfile
    have h₁ : Contents.IsSimple t₁.item? := by
      rw [ht₁]
      exact Renewal.isSimple_apply h hne
    -- The places of the others are apart, so that they stay free.
    have hfree₁ : ∀ b ∈ as,
        ¬Contents.IsBlocked t₁.item? (place o b) ∧ t₁.item? (place o b) = none := by
      intro b hb
      have hsame : Contents.SameAt ((renewalOf o a).apply t.item?) t.item? (place o b) :=
        (hfirst _ (List.mem_map_of_mem hb)).sameAt t.item?
      obtain ⟨hb₁, hb₂⟩ := hfree b hb
      rw [ht₁]
      exact ⟨fun hblocked => hb₁ (hsame.isBlocked.1 hblocked), hsame.item.trans hb₂⟩
    obtain ⟨t', hrun, ht'⟩ := ih h₁ hrelative hapart hpaired hstorable hfree₁
    refine ⟨t', ?_, ?_⟩
    · have hsettle : settle stopOnError a.path (file t o a).2 = .ok (createdReport a) := by
        rw [hfile]
        rfl
      rw [runEach_of_ok hsettle, hfile, hrun]
      rfl
    · rw [ht', ht₁]
      rfl

/-- Syncing an artifact that cannot be stored puts no file anywhere. -/
theorem file_eq_file_iff_of_not_isStorable {t : FileTree} (h : Contents.IsSimple t.item?)
    {a : Artifact} (ha : IsRelative a) (hstorable : ¬IsStorable (base o) a) (l : Location)
    (bytes : ByteArray) :
    (file t o a).1.item? l = some (.file bytes) ↔ t.item? l = some (.file bytes) := by
  rcases destination_of_isPathOf h hcurrent ha with ⟨e, hplace⟩ | hplace
  · rw [file_of_error hplace]
  · have hclosed : ¬IsOpen t o a.path := by
      rintro ⟨loc, hplace', hflaw, hnames, -⟩
      obtain rfl := Except.ok.inj (hplace.symm.trans hplace')
      exact hstorable ⟨hnames, hflaw⟩
    rcases file_of_isClosed h hplace hreal (isName_place hcurrent ha) hclosed with hs |
      ⟨-, t', hfile, hsame | ⟨above, name, rest, -, -, -, -, hfree, hnone, ht'⟩⟩
    · obtain ⟨e, hfile⟩ := file_of_isStopped h hs
      rw [hfile]
    · rw [hfile, hsame]
    · rw [hfile, ht']
      refine Contents.paved_eq_file_iff (fun hblocked => hfree ?_) hnone l bytes
      exact hblocked.mono (List.prefix_append _ _)

/-- **An artifact that cannot be stored is not created**, whatever else is synced. Its path is one
that the file system does not take, so that nothing is put where it would lead. -/
theorem runEach_keepsOut (stopOnError : Bool) {t : FileTree} (h : Contents.IsSimple t.item?)
    {as : List Artifact} (hrelative : ∀ a ∈ as, IsRelative a) {b : Artifact}
    (hstorable : ¬IsStorable (base o) b) {bytes : ByteArray}
    (hfile : t.item? (place o b) ≠ some (.file bytes)) :
    (runEach o stopOnError t as).tree.item? (place o b) ≠ some (.file bytes) := by
  induction as generalizing t with
  | nil => exact hfile
  | cons a as ih =>
    obtain ⟨ha, hrelative⟩ := List.forall_mem_cons.1 hrelative
    obtain ⟨hsimple, -⟩ := file_keeps h hcurrent hreal (a := a)
    have hstep : (file t o a).1.item? (place o b) ≠ some (.file bytes) := by
      by_cases hsame : place o a = place o b
      · -- An artifact for the same place cannot be stored either.
        have hsteps : (Path.ofText a.path).steps = (Path.ofText b.path).steps :=
          List.append_cancel_left hsame
        have hstorable' : ¬IsStorable (base o) a := by
          rwa [IsStorable, hsteps]
        rwa [Ne, file_eq_file_iff_of_not_isStorable hcurrent hreal h ha hstorable']
      · have hother : destination t o a.path ≠ .ok (place o b) := fun hplace =>
          hsame (eq_of_destination h hcurrent ha hplace).symm
        rwa [Ne, file_eq_file_iff h hcurrent hreal hother]
    rcases runEach_cons_cases stopOnError t a as with ⟨r, -, hrun⟩ | ⟨e, -, hrun⟩
    · rw [hrun]
      exact ih hsimple hrelative hstep
    · rw [hrun]
      exact hstep

end Run

/-! ## The files of a run -/

/-- Renewals leave the files of other places. -/
theorem renew_eq_file_iff {rs : List Renewal} {l : Location} (h : ∀ r ∈ rs, l ≠ r.loc)
    (f : Contents) (bytes : ByteArray) :
    Renewal.renew rs f l = some (.file bytes) ↔ f l = some (.file bytes) := by
  induction rs generalizing f with
  | nil => exact Iff.rfl
  | cons r rs ih =>
    obtain ⟨hr, hrs⟩ := List.forall_mem_cons.1 h
    exact (ih hrs (r.apply f)).trans (Renewal.apply_eq_file_iff hr)

/-- Renewals at places of their own where nothing stands put their files there, and no others. -/
theorem renew_vacant_eq_file_iff {rs : List Renewal} (hapart : rs.Pairwise Renewal.Apart)
    {f : Contents} (hfiles : ∀ l bytes, f l ≠ some (.file bytes))
    (hvacant : ∀ r ∈ rs, f r.loc = none) (l : Location) (bytes : ByteArray) :
    Renewal.renew rs f l = some (.file bytes) ↔ ∃ r ∈ rs, r.loc = l ∧ r.created = bytes := by
  have hput : ∀ r ∈ rs, Renewal.renew rs f r.loc = some (.file r.created) := by
    intro r hr
    have hfree : ¬f.IsBlocked r.loc := fun ⟨above, old, _, _, hfile⟩ => hfiles above old hfile
    rw [(Renewal.sameAt_renew_of_mem hapart hr f).item, Renewal.apply_loc hfree, hvacant r hr]
    rfl
  constructor
  · intro hfile
    by_cases hplace : ∃ r ∈ rs, r.loc = l
    · obtain ⟨r, hr, rfl⟩ := hplace
      exact ⟨r, hr, rfl, Item.file.inj (Option.some.inj ((hput r hr).symm.trans hfile))⟩
    · have hother : ∀ r ∈ rs, l ≠ r.loc := fun r hr heq => hplace ⟨r, hr, heq.symm⟩
      exact absurd ((renew_eq_file_iff hother f bytes).1 hfile) (hfiles l bytes)
  · rintro ⟨r, hr, rfl, rfl⟩
    exact hput r hr

section Mirror

variable {o : Options} {root made : Location} (hroot : ∀ name ∈ root, IsName name)
  (hmade : made <+: root)

include hroot in
/-- In a mirrored run an artifact goes to the root and on by the steps of its path. -/
theorem place_mirrored (a : Artifact) :
    place (o.mirrored root) a = root ++ (Path.ofText a.path).steps := by
  rw [place, base_mirrored o hroot]

include hroot hmade in
/-- The place of an artifact is below the root, and thus not on the way to it. -/
theorem item?_wayTo_place {a : Artifact} (ha : IsRelative a) :
    (wayTo made).item? (place (o.mirrored root) a) = none := by
  rw [place_mirrored hroot, item?_wayTo, if_neg]
  intro hle
  have hlength := (hle.trans hmade).length_le
  have hsteps := List.length_pos_of_ne_nil ha.ne_nil
  rw [List.length_append] at hlength
  omega

variable (hclean : ∀ name ∈ root, textFlaw? name = none) (hreal : o.dryRun = false)
  (stopOnError : Bool) {as : List Artifact} (hrelative : ∀ a ∈ as, IsRelative a)
  (hapart : (as.map (renewalOf (o.mirrored root))).Pairwise Renewal.Apart)
  (hpaired : ∀ a ∈ as, Text.isPaired a.content = true)
include hroot hmade hclean hreal hrelative hapart hpaired

/-- A run where only the way to its root stands creates its artifacts. -/
theorem runEach_wayTo (hstorable : ∀ a ∈ as, IsStorable root a) :
    ∃ t' : FileTree,
      runEach (o.mirrored root) stopOnError (wayTo made) as = ⟨t', .ok (as.map createdReport)⟩ ∧
        t'.item? = Renewal.renew (as.map (renewalOf (o.mirrored root))) (wayTo made).item? := by
  refine runEach_creates (isName_mirrored o root) hreal hclean stopOnError (isSimple_wayTo made)
    hrelative hapart hpaired (fun b hb => (base_mirrored o hroot).symm ▸ hstorable b hb)
    fun b hb => ⟨?_, item?_wayTo_place hroot hmade (hrelative b hb)⟩
  rintro ⟨above, bytes, -, -, hfile⟩
  exact wayTo_ne_file made above bytes hfile

/-- The files below the root after such a run. -/
theorem files_runEach_wayTo_iff :
    (∀ names bytes, (runEach (o.mirrored root) stopOnError (wayTo made) as).tree.item?
        (root ++ names) = some (.file bytes) ↔
          ∃ a ∈ as, (Path.ofText a.path).steps = names ∧ Text.bytes a.content = bytes) ↔
      ∀ a ∈ as, IsStorable root a := by
  constructor
  · -- An artifact that cannot be stored would have no file.
    intro hfiles a ha
    by_contra hstorable
    have hput := (hfiles _ _).2 ⟨a, ha, rfl, rfl⟩
    rw [← place_mirrored hroot] at hput
    refine runEach_keepsOut (isName_mirrored o root) hreal stopOnError (isSimple_wayTo made)
      hrelative ?_ (wayTo_ne_file made _ _) hput
    rwa [base_mirrored o hroot]
  -- Where all can be stored, the run renews the places of the artifacts, and only these.
  · intro hstorable names bytes
    obtain ⟨t', hrun, ht'⟩ :=
      runEach_wayTo hroot hmade hclean hreal stopOnError hrelative hapart hpaired hstorable
    rw [hrun, ht', renew_vacant_eq_file_iff hapart (wayTo_ne_file made)]
    · constructor
      · rintro ⟨r, hr, hloc, hbytes⟩
        obtain ⟨a, ha, rfl⟩ := List.mem_map.1 hr
        exact ⟨a, ha, List.append_cancel_left ((place_mirrored hroot a).symm.trans hloc), hbytes⟩
      · rintro ⟨a, ha, rfl, rfl⟩
        exact ⟨_, List.mem_map_of_mem ha, place_mirrored hroot a, rfl⟩
    · intro r hr
      obtain ⟨a, ha, rfl⟩ := List.mem_map.1 hr
      exact item?_wayTo_place hroot hmade (hrelative a ha)

end Mirror

/-- **A run into an empty root leaves the files of its artifacts there, and no others, exactly when
all of them can be stored**, provided that their texts have bytes; they are then reported as
created. -/
theorem files_run_iff {t : FileTree} {o : Options} {root : Location} (h : IsEmptyRoot t o root)
    (hreal : o.dryRun = false) (stopOnError : Bool) {as : List Artifact}
    (hrelative : ∀ a ∈ as, IsRelative a)
    (hapart : (as.map (renewalOf (o.mirrored root))).Pairwise Renewal.Apart)
    (hpaired : ∀ a ∈ as, Text.isPaired a.content = true) :
    ((∀ names bytes,
        (run t o stopOnError as).tree.item? (root ++ names) = some (.file bytes) ↔
          ∃ a ∈ as, (Path.ofText a.path).steps = names ∧ Text.bytes a.content = bytes) ↔
      ∀ a ∈ as, IsStorable root a) ∧
    ((∀ a ∈ as, IsStorable root a) →
      (run t o stopOnError as).results = .ok (as.map createdReport)) := by
  obtain ⟨made, hmade, hmirrors⟩ := h.exists_mirrors
  have hclean : ∀ name ∈ root, textFlaw? name = none := textFlaw?_of_resolved h.resolved
  rw [run_eq_runEach (nodup_paths hapart)]
  -- The run does the same in the mirror, where only the way to the root stands.
  obtain ⟨hafter, hresults⟩ := hmirrors.runEach_mirrored h.names hreal stopOnError hrelative
  have hitem : ∀ names, (runEach o stopOnError t as).tree.item? (root ++ names) =
      (runEach (o.mirrored root) stopOnError (wayTo made) as).tree.item? (root ++ names) :=
    fun names => (hafter.alike.item _ (.inr (List.prefix_append _ _))).symm
  simp only [hitem, ← hresults]
  refine ⟨files_runEach_wayTo_iff h.names hmade hclean hreal stopOnError hrelative hapart hpaired,
    fun hstorable => ?_⟩
  obtain ⟨t', hrun, -⟩ :=
    runEach_wayTo h.names hmade hclean hreal stopOnError hrelative hapart hpaired hstorable
  rw [hrun]

/-! ## Archives and runs -/

/-- The files below the root of a tree are those of the list, path for path and text for text. -/
def Delivers (t : FileTree) (root : Location) (out : List (String × String)) : Prop :=
  ∀ names bytes, t.item? (root ++ names) = some (.file bytes) ↔
    ∃ e ∈ out, Path.pieces e.1 = names ∧ Text.bytes e.2 = bytes

/-- What is unpacked from the archive of a rendering, and what a run into an empty root leaves, when
the texts of all files have bytes. -/
theorem delivers_render_iff {c : Contract} {preset : Preset} {language : Language}
    {withShared : Bool} {files : List Artifact}
    (hfiles : View.render c preset.name language.word withShared = .ok files)
    (hpaired : ∀ f ∈ files, Text.isPaired f.content = true) {t : FileTree}
    {o : Options} {root : Location} (h : IsEmptyRoot t o root) (hreal : o.dryRun = false)
    (stopOnError : Bool) :
    (Delivers (run t o stopOnError files).tree root
        (files.map fun f => (plainPath f.path, f.content)) ↔ ∀ f ∈ files, IsStorable root f) ∧
      ((∀ f ∈ files, IsStorable root f) →
        (run t o stopOnError files).results = .ok (files.map createdReport)) := by
  obtain ⟨_, _, hspots⟩ := areSpots_of_isRendered (.one hfiles)
  have hrelative := hspots.isRelative
  obtain ⟨htree, hresults⟩ :=
    files_run_iff h hreal stopOnError hrelative (hspots.pairwise_apart (o.mirrored root)) hpaired
  refine ⟨?_, hresults⟩
  rw [← htree]
  -- An entry and the place of its artifact have the same steps.
  refine forall_congr' fun names => forall_congr' fun bytes => iff_congr Iff.rfl ?_
  constructor
  · rintro ⟨e, he, rfl, rfl⟩
    obtain ⟨f, hf, rfl⟩ := List.mem_map.1 he
    exact ⟨f, hf, (pieces_plainPath (hrelative f hf)).symm, rfl⟩
  · rintro ⟨f, hf, rfl, rfl⟩
    exact ⟨_, List.mem_map_of_mem hf, pieces_plainPath (hrelative f hf), rfl⟩

/-- **The archive of a rendering and a run into an empty root deliver the same tree exactly when the
file system takes the path of every file.** When a contract was built, its rendering in any preset
and language succeeds unless a field of a child table has no key for its name. When the texts of all
files have bytes, it is packed and unpacked; and whatever the run is to do with errors, and whatever
stands elsewhere in the tree, what it leaves below the root are the unpacked files exactly when all
files can be stored there, and it then reports each of them as created. -/
theorem delivers_iff_isStorable {source : Source} {entity : String} {wanted : Option String}
    {c : Contract} (h : Contract.build source entity wanted = .ok c) (preset : Preset)
    (language : Language) (withShared : Bool)
    (hkeeps : ∀ files, View.render c preset.name language.word withShared = .ok files →
      Archive.Keeps files)
    {t : FileTree} {o : Options} {root : Location} (ht : IsEmptyRoot t o root)
    (hreal : o.dryRun = false) (stopOnError : Bool) (filename : Option String) :
    ((∃ files, View.render c preset.name language.word withShared = .ok files) ↔
      ∀ t ∈ c.childTables, ∀ f ∈ t.2.fields, f.name.isKey = true) ∧
    ∀ files, View.render c preset.name language.word withShared = .ok files →
      (∀ f ∈ files, Text.isPaired f.content = true) →
      ∃ a out, Archive.pack files filename = .ok a ∧ Archive.unpack a.toEntries = .ok out ∧
        (Delivers (run t o stopOnError files).tree root out ↔ ∀ f ∈ files, IsStorable root f) ∧
        ((∀ f ∈ files, IsStorable root f) →
          (run t o stopOnError files).results = .ok (files.map createdReport)) := by
  refine ⟨(View.isIntact_of_build h (View.resolvePreset_name preset) (View.ofWord?_word language)
    withShared).1, fun files hfiles hpaired => ?_⟩
  obtain ⟨a, hpack, hout⟩ :=
    Archive.unpack_pack_render hfiles hpaired (hkeeps files hfiles) filename
  exact ⟨a, _, hpack, hout, delivers_render_iff hfiles hpaired ht hreal stopOnError⟩

/-- A root at the end of its way is empty. -/
theorem isEmptyRoot_wayTo {root : Location} (hroot : ∀ name ∈ root, IsName name)
    (hclean : ∀ name ∈ root, textFlaw? name = none) :
    IsEmptyRoot (wayTo root) (respecting [] (pathOf root)) root where
  resolved := by
    have hreal : (wayTo root).IsReal root :=
      ⟨hroot, fun _ _ _ => (isSimple_wayTo root).linkless _ _⟩
    exact (resolve_of_isReal hreal []).trans (by rw [List.findSome?_eq_none_iff.2 hclean]; rfl)
  names := hroot
  made := ⟨root, List.prefix_rfl, fun l _ => item?_wayTo root l⟩

/-- The root of the examples. -/
def outRoot : Location := ["out"]

/-- The root of the examples is empty. -/
theorem isEmptyRoot_outRoot :
    IsEmptyRoot (wayTo outRoot) (respecting [] (pathOf outRoot)) outRoot :=
  isEmptyRoot_wayTo (by decide)
    (List.forall_mem_singleton.2 (textFlaw?_of_notMem (by decide) (by decide)))

/-- The archive of an entity with one field and a run into an empty root. -/
theorem delivers_iff_isStorable_titled :
    ∃ c files a out, Contract.build titledSource "Note" (some "plain") = .ok c ∧
      View.render c "plain" "js" true = .ok files ∧ Archive.Keeps files ∧
      IsEmptyRoot (wayTo outRoot) (respecting [] (pathOf outRoot)) outRoot ∧
      Archive.pack files none = .ok a ∧ Archive.unpack a.toEntries = .ok out ∧
      Delivers (run (wayTo outRoot) (respecting [] (pathOf outRoot)) false files).tree outRoot out ∧
      (run (wayTo outRoot) (respecting [] (pathOf outRoot)) false files).results =
        .ok (files.map createdReport) := by
  obtain ⟨c, hc, ⟨hentity, htables⟩, hfitting⟩ := Archive.exists_keeps_titled
  obtain ⟨hrenders, hdelivers⟩ := delivers_iff_isStorable hc .plain .js true
    (fun files hfiles => (hfitting files hfiles).2) isEmptyRoot_outRoot rfl false none
  obtain ⟨files, hfiles⟩ := hrenders.2 (by simp [htables])
  obtain ⟨hpaired, hkeeps⟩ := hfitting files hfiles
  obtain ⟨a, out, hpack, hout, htree, hresults⟩ := hdelivers files hfiles hpaired
  have hstorable : ∀ f ∈ files, IsStorable outRoot f := by
    intro f hf
    obtain ⟨_, hintact⟩ := View.isIntact_of_build hc (View.resolvePreset_name .plain)
      (View.ofWord?_word .js) true
    obtain ⟨k, hk, hpath, -⟩ := exists_of_mem_forall₂ (hintact files hfiles) hf
    have hnames : View.Names.ofContract c .js =
        ⟨"Note", Naming.slug "Note", Naming.component "Note", .js⟩ := by
      rw [View.Names.ofContract, hentity]
    have hout : IsModest "out" := ⟨by decide, by decide, by decide⟩
    rw [hnames] at hpath
    exact (isStorable_iff (View.isSlug_slug "Note") hpath).2 (View.FileKind.fits_steps
      (View.isSlug_slug "Note") (List.forall_mem_singleton.2 hout) (by decide)
      (by decide +kernel) k)
  exact ⟨c, files, a, out, hc, hfiles, hkeeps, isEmptyRoot_outRoot, hpack, hout,
    htree.2 hstorable, hresults hstorable⟩

/-! ## What is not delivered -/

/-- The letters of a very long name. -/
def longLetters : List Char := List.replicate 253 'a'

/-- A very long name. -/
def longName : String := String.ofList longLetters

/-- A name of small letters is its own slug. -/
theorem slug_longName : Naming.slug longName = longName := by
  rw [Naming.slug, longName, String.toList_ofList]
  exact congrArg String.ofList (show Naming.kebab longLetters = longLetters by decide +kernel)

/-- A name of letters has no blanks around it. -/
theorem strip_longName : Text.strip longName = longName := by
  rw [Text.strip, longName, String.toList_ofList]
  exact congrArg String.ofList (show Text.trim longLetters = longLetters by decide +kernel)

/-- An entity with a very long name and one field. -/
def longSource : Source :=
  .ofSchemas (.record [(longName, .record [
    ("fields", .list [.record [("fieldname", .text "title"), ("fieldtype", .text "Data")]])])])

/-- Its contract has no child tables. -/
theorem exists_build_long :
    ∃ c, Contract.build longSource longName (some "plain") = .ok c ∧ c.entity = longName ∧
      c.childTables = [] := by
  have hname : longName ≠ "" := by
    rw [longName, Ne, ← String.toList_inj, String.toList_ofList]
    exact List.cons_ne_nil _ _
  obtain ⟨own, hown, heq⟩ := exists_of_map_toOption
    (show (longSource.ownParts longName).toOption.map (fun own => (own.rows.length,
        (childTables longSource [] [] own.rows).outcome.toOption.map (·.1.length))) =
      some (1, some 0) by decide +kernel)
  obtain ⟨hrows, htables⟩ := Prod.mk.inj heq
  obtain ⟨⟨tables, warnings⟩, htables, hlength⟩ := exists_of_map_toOption htables
  have hstripped : longSource.ownParts (Text.strip longName) = .ok own :=
    (congrArg longSource.ownParts strip_longName).trans hown
  have hnamed : Text.strip longName ≠ "" := by rwa [strip_longName]
  have h := build_eq_ok.2 ⟨hnamed, .plain, own, tables, warnings, View.resolvePreset_name .plain,
    hstripped, List.ne_nil_of_length_eq_add_one hrows, htables, rfl⟩
  exact ⟨_, h, strip_longName, List.length_eq_zero_iff.1 hlength⟩

/-- The name of its file of actions is too long for the file system. -/
theorem not_isStorable_long {c : Contract} (hentity : c.entity = longName) {a : Artifact}
    (hpath : a.path = View.FileKind.actions.path (.ofContract c .js)) :
    ¬IsStorable outRoot a := by
  have hslug : View.FileKind.IsSlug (View.Names.ofContract c .js).slug := View.isSlug_slug c.entity
  rw [isStorable_iff hslug hpath]
  rintro ⟨hnames, -⟩
  have hfile : View.FileKind.actions.fileName (.ofContract c .js) = longName ++ "." ++ "js" := by
    rw [View.Names.ofContract, hentity, slug_longName]
    rfl
  have hmem : longName ++ "." ++ "js" ∈ View.FileKind.actions.steps (.ofContract c .js) := by
    rw [View.FileKind.steps_eq, hfile]
    exact List.mem_append_right _ List.mem_cons_self
  have hshort := (hnames _ (List.mem_append_right outRoot hmem)).2
  have hletters : (longName ++ "." ++ "js").toList = longLetters ++ ['.', 'j', 's'] := by
    rw [longName, String.toList_append, String.toList_append, String.toList_ofList,
      List.append_assoc]
    rfl
  have hplain : Text.mark ∉ (longName ++ "." ++ "js").toList := by
    rw [hletters]
    decide +kernel
  have hlength : (longName ++ "." ++ "js").length = 256 := by
    rw [← String.length_toList, hletters, List.length_append, longLetters, List.length_replicate]
    rfl
  have hweight := Text.length_le_weight_of_notMem hplain
  rw [IsShort, maxNameSize] at hshort
  omega

/-- **Not every contract is rendered, and not every file is delivered by a run.** A contract with a
child field that is named by a list is not rendered; and the files of an entity with a very long
name are not both packed and left in an empty root by a run, even if the zip file keeps what is put
into it. -/
theorem not_delivers_long :
    (∃ c, Contract.build View.listedNote "Note" (some "plain") = .ok c ∧
      ∀ files, View.render c "plain" "js" true ≠ .ok files) ∧
    ∃ c files, Contract.build longSource longName (some "plain") = .ok c ∧
      View.render c "plain" "js" true = .ok files ∧
      IsEmptyRoot (wayTo outRoot) (respecting [] (pathOf outRoot)) outRoot ∧
      (Archive.Keeps files → ¬∃ a out, Archive.pack files none = .ok a ∧
        Archive.unpack a.toEntries = .ok out ∧
        Delivers (run (wayTo outRoot) (respecting [] (pathOf outRoot)) false files).tree outRoot
          out) := by
  constructor
  · obtain ⟨c, h, hkeys⟩ := exists_of_map_toOption
      (show (Contract.build View.listedNote "Note" (some "plain")).toOption.map (fun c =>
        (View.keptNames c).all Value.isKey) = some false by decide +kernel)
    refine ⟨c, h, fun files hfiles => ?_⟩
    have hrender := View.render_eq c (View.resolvePreset_name .plain) (View.ofWord?_word .js) true
    rw [hkeys] at hrender
    exact absurd (hfiles.symm.trans hrender) (by simp)
  · obtain ⟨c, h, hentity, htables⟩ := exists_build_long
    obtain ⟨hrenders, hintact⟩ :=
      View.isIntact_of_build h (View.resolvePreset_name .plain) (View.ofWord?_word .js) true
    obtain ⟨files, hfiles⟩ := hrenders.2 (by simp [htables])
    refine ⟨c, files, h, hfiles, isEmptyRoot_outRoot, ?_⟩
    rintro hkeeps ⟨a, out, hpack, hout, hdelivers⟩
    -- What was packed has bytes, and is unpacked to the entries of the files.
    have hpaired := (Archive.exists_pack_render_iff hfiles none).1 ⟨a, hpack⟩
    obtain ⟨a', hpack', hout'⟩ := Archive.unpack_pack_render hfiles hpaired hkeeps none
    obtain rfl : a = a' := Except.ok.inj (hpack.symm.trans hpack')
    obtain rfl := Except.ok.inj (hout.symm.trans hout')
    have hstorable :=
      (delivers_render_iff hfiles hpaired isEmptyRoot_outRoot rfl false).1.1 hdelivers
    have hmem : View.FileKind.actions ∈ View.FileKind.all true := by decide
    obtain ⟨f, hf, hpath, -⟩ := exists_of_mem_forall₂ (hintact files hfiles).flip hmem
    exact not_isStorable_long hentity hpath (hstorable f hf)

end Sync

end FormScaffold
