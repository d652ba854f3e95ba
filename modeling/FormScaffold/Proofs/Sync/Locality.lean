import FormScaffold.Proofs.Files.Alike
import FormScaffold.Proofs.Sync.Confinement
import FormScaffold.Proofs.Sync.Running

/-! # Runs and the rest of the tree

What a run does depends on the tree below its root and on the way there alone. In trees that are
alike in this zone, runs report the same and leave the trees alike.

* `SameOutcome` — trees that are alike, with the same report;
* `sameOutcome_fileAt` — syncing one artifact at a location of the zone;
* **`destination_of_isReal`** — where an artifact goes when there are no links on the way;
* `Mirrors` — a tree without links that shows how another one is near a root;
* **`runEach_mirrored`** — a run reports the same in a mirror, and does the same. -/

namespace FormScaffold.Sync

open FileTree

/-- Trees that are alike in a zone, with the same to report. -/
structure SameOutcome (zone : Location → Prop) {α : Type} (x x' : FileTree × α) : Prop where
  tree : Alike zone x.1 x'.1
  report : x'.2 = x.2

section Place

variable {zone : Location → Prop} {t t' : FileTree} (h : Alike zone t t') (hzone : IsZone zone)
  {loc : Location} (hloc : zone loc) (hnames : ∀ name ∈ loc, IsName name)
include h hzone hloc hnames

/-- What stands at a location of the zone is the same in both trees. -/
theorem existing_eq : existing t' loc = existing t loc := by
  rw [existing, existing, pathOf, h.find_eq hzone hloc hnames]

variable (hne : loc ≠ []) {o o' : Options} (hdry : o'.dryRun = o.dryRun)
include hne hdry

/-- A text is stored in both trees, or in neither. -/
theorem sameOutcome_storeAs (text : String) (r : MergeResult) :
    SameOutcome zone (storeAs t o loc text r) (storeAs t' o' loc text r) := by
  have hput : Alike zone (t.attemptFile [] (pathOf loc) (Text.bytes text)).tree
        (t'.attemptFile [] (pathOf loc) (Text.bytes text)).tree ∧
      (t'.attemptFile [] (pathOf loc) (Text.bytes text)).error? =
        (t.attemptFile [] (pathOf loc) (Text.bytes text)).error? :=
    h.attemptFile_alike hzone hloc hne hnames (Text.bytes text)
  unfold storeAs store
  rw [hdry]
  cases o.dryRun with
  | true => exact ⟨h, rfl⟩
  | false =>
    refine ⟨hput.1, ?_⟩
    dsimp only
    rw [hput.2]
    rfl

variable (hstrategy : o'.strategy = o.strategy) (a : Artifact)
include hstrategy

/-- Merging into a file of the zone does the same in both trees. -/
theorem sameOutcome_mergeInto (old : String) :
    SameOutcome zone (mergeInto t o a loc old) (mergeInto t' o' a loc old) := by
  unfold mergeInto
  rw [hstrategy]
  cases Region.merge old.toList a.content.toList (ownedRegions a) a.path o.strategy with
  | error c => exact ⟨h, rfl⟩
  | ok m =>
    simp only
    split
    · exact ⟨h, rfl⟩
    · exact sameOutcome_storeAs h hzone hloc hnames hne hdry _ _

/-- **An artifact is synced in the same way** at a location of the zone. All that is looked at and
all that is written is in the zone. -/
theorem sameOutcome_fileAt (item : Option Item) :
    SameOutcome zone (fileAt t o a loc item) (fileAt t' o' a loc item) := by
  unfold fileAt
  split
  · exact sameOutcome_storeAs h hzone hloc hnames hne hdry _ _
  · split
    · exact ⟨h, rfl⟩
    · exact sameOutcome_mergeInto h hzone hloc hnames hne hdry hstrategy a _
  · exact ⟨h, rfl⟩

/-- An artifact whose destination is the same in both trees is synced in the same way. -/
theorem sameOutcome_file (hplace : destination t o a.path = .ok loc)
    (hplace' : destination t' o' a.path = .ok loc) :
    SameOutcome zone (file t o a) (file t' o' a) := by
  unfold file
  rw [hplace, hplace']
  simp only [existing_eq h hzone hloc hnames]
  cases existing t loc with
  | error p => exact ⟨h, rfl⟩
  | ok item => exact sameOutcome_fileAt h hzone hloc hnames hne hdry hstrategy a item

end Place

/-! ## Mirrors -/

/-- The zone of a root: what is on the way to it, and what is below. -/
def Near (root l : Location) : Prop := l <+: root ∨ root <+: l

/-- What is near a root is a zone: with a location it has the way to it. -/
theorem isZone_near (root : Location) : IsZone (Near root) := by
  rintro l loc hl (hloc | hloc)
  · exact .inl (hl.trans hloc)
  · exact (List.prefix_or_prefix_of_prefix hl hloc)

/-- A tree without links shows how the tree is below the root of a run and on the way there. -/
structure Mirrors (o : Options) (root : Path) (t t' : FileTree) : Prop where
  alike : Alike (Near root.steps) t t'
  simple : Contents.IsSimple t'.item?
  resolved : t.resolve o.current o.root = .ok root

/-- The same run in a mirror. -/
def Options.mirrored (o : Options) (root : Location) : Options :=
  { o with current := [], root := pathOf root }

/-- A mirrored run starts at the root of the tree. -/
theorem isName_mirrored (o : Options) (root : Location) :
    ∀ name ∈ (o.mirrored root).current, IsName name := by simp [Options.mirrored]

/-- A mirrored run goes to the root it was given. -/
theorem base_mirrored (o : Options) {root : Location} (hroot : ∀ name ∈ root, IsName name) :
    base (o.mirrored root) = root := follow_of_isName hroot []

/-- The names of a location can name files when a path was resolved to it. -/
theorem textFlaw?_of_resolved {t : FileTree} {current : Location} {p q : Path}
    (h : t.resolve current p = .ok q) : ∀ name ∈ q.steps, textFlaw? name = none :=
  (Path.textFlaw?_text q).1 (resolve_eq_ok.1 h).2.2.2

/-- **An artifact goes below a resolved root, by the names of its path**, when that is a real
location. A name that cannot name files stops it. -/
theorem destination_of_isReal {t : FileTree} {o : Options} {root : Location}
    (hroot : t.resolve o.current o.root = .ok (pathOf root)) {path : String} {steps : List String}
    (hpath : IsPathOf steps path) (hreal : t.IsReal (root ++ steps)) :
    destination t o path =
      match steps.findSome? textFlaw? with
      | some e => .error (.path e)
      | none => .ok (root ++ steps) := by
  -- The names of the root were resolved, so that what is wrong is wrong with the steps.
  have hclean : root.findSome? textFlaw? = none :=
    List.findSome?_eq_none_iff.2 (textFlaw?_of_resolved hroot)
  have hflaws : (root ++ steps).findSome? textFlaw? = steps.findSome? textFlaw? := by
    rw [List.findSome?_append, hclean, Option.none_or]
  have htarget := resolve_of_isReal hreal o.current
  rw [hflaws] at htarget
  cases hsteps : steps.findSome? textFlaw? with
  | some e =>
    rw [hsteps] at htarget
    exact destination_of_error hroot hpath.ofText htarget
  | none =>
    rw [hsteps] at htarget
    exact destination_of_resolves hroot hpath.ofText hpath.ne_nil htarget

/-- A sync whose root is resolved, to a location with no link below it or on the way to it. -/
structure HasPlainRoot (t : FileTree) (o : Options) (root : Location) : Prop where
  current : t.IsReal o.current
  resolved : t.resolve o.current o.root = .ok (pathOf root)
  linkless : ∀ l target, Near root l → t.item? l ≠ some (.link target)

/-- Where an artifact goes below a root without links. -/
theorem HasPlainRoot.destination_eq {t : FileTree} {o : Options} {root : Location}
    (h : HasPlainRoot t o root) {path : String} {steps : List String}
    (hpath : IsPathOf steps path) (hclean : ∀ name ∈ steps, textFlaw? name = none) :
    destination t o path = .ok (root ++ steps) := by
  have hnear : ∀ l, l <+: root ++ steps → Near root l := fun l hl =>
    isZone_near root l _ hl (.inr (List.prefix_append _ _))
  have hreal : t.IsReal (root ++ steps) :=
    ⟨List.forall_mem_append.2 ⟨isName_of_resolve h.current h.resolved, hpath.names⟩,
      fun l target hl => h.linkless l target (hnear l hl)⟩
  rw [destination_of_isReal h.resolved hpath hreal, List.findSome?_eq_none_iff.2 hclean]

namespace Mirrors

section Path

variable {o : Options} {root : Path} {t t' : FileTree} (h : Mirrors o root t t')
include h

/-- Locations near the root are real. -/
theorem isReal {loc : Location} (hloc : Near root.steps loc) (hnames : ∀ name ∈ loc, IsName name) :
    t.IsReal loc := h.alike.isReal (isZone_near root.steps) hloc hnames

/-- **The root is resolved as before when the links stay**, since there are none near it. What is
written is no link, and takes the place of none. -/
theorem resolve_eq (hroot : ∀ name ∈ root.steps, IsName name) {u : FileTree}
    (hlinks : SameLinks t u) : u.resolve o.current o.root = .ok root :=
  hlinks.resolve_eq h.resolved ((h.isReal (.inl List.prefix_rfl) hroot).congr hlinks)

end Path

variable {o : Options} {root : Location} {t t' : FileTree} (h : Mirrors o (pathOf root) t t')
  (hroot : ∀ name ∈ root, IsName name) {path : String} {steps : List String}
  (hpath : IsPathOf steps path)
include h hroot hpath

/-- **An artifact goes to the same place in a mirror**: below the root, by the names of its path. A
path with a name that cannot name files leads nowhere in both. -/
theorem destination_eq :
    (∃ e, destination t o path = .error (.path e) ∧
        destination t' (o.mirrored root) path = .error (.path e)) ∨
      destination t o path = .ok (root ++ steps) ∧
        destination t' (o.mirrored root) path = .ok (root ++ steps) := by
  have hnames : ∀ name ∈ root ++ steps, IsName name :=
    List.forall_mem_append.2 ⟨hroot, hpath.names⟩
  have hmirror : ∀ {loc : Location}, (∀ name ∈ loc, IsName name) → t'.IsReal loc := fun hloc =>
    ⟨hloc, fun _ _ _ => h.simple.linkless _ _⟩
  -- The root of the mirrored run is resolved to itself.
  have hresolved : t'.resolve (o.mirrored root).current (o.mirrored root).root =
      .ok (pathOf root) := by
    have hclean : root.findSome? textFlaw? = none :=
      List.findSome?_eq_none_iff.2 (textFlaw?_of_resolved h.resolved)
    exact (resolve_of_isReal (hmirror hroot) []).trans (by rw [hclean]; rfl)
  have hplace := destination_of_isReal h.resolved hpath
    (h.isReal (.inr (List.prefix_append root steps)) hnames)
  have hplace' := destination_of_isReal hresolved hpath (hmirror hnames)
  rw [hplace, hplace']
  cases steps.findSome? textFlaw? with
  | some e => exact .inl ⟨e, rfl, rfl⟩
  | none => exact .inr ⟨rfl, rfl⟩

/-! ## Runs in mirrors -/

/-- **An artifact is synced in the same way in a mirror**, which then still mirrors the tree. The
mirror is a simple tree, so that what was shown of trees without links applies to it. -/
theorem file_mirrored {a : Artifact} (hreal : o.dryRun = false) (ha : a.path = path) :
    Mirrors o (pathOf root) (file t o a).1 (file t' (o.mirrored root) a).1 ∧
      (file t' (o.mirrored root) a).2 = (file t o a).2 := by
  subst ha
  rcases h.destination_eq hroot hpath with ⟨e, hplace, hplace'⟩ | ⟨hplace, hplace'⟩
  · rw [file_of_error hplace, file_of_error hplace']
    exact ⟨h, rfl⟩
  · have hnames : ∀ name ∈ root ++ steps, IsName name :=
      List.forall_mem_append.2 ⟨hroot, hpath.names⟩
    have hnear : Near root (root ++ steps) := .inr (List.prefix_append _ _)
    have hdry : (o.mirrored root).dryRun = o.dryRun := rfl
    have hstrategy : (o.mirrored root).strategy = o.strategy := rfl
    obtain ⟨halike, hreport⟩ := sameOutcome_file h.alike (isZone_near root) hnear hnames
      (by simp [hpath.ne_nil]) hdry hstrategy a hplace hplace'
    refine ⟨⟨halike, (file_keeps h.simple (isName_mirrored o root) hreal).1, ?_⟩, hreport⟩
    -- Links are never changed, so that the root is resolved as before.
    have hlinks : SameLinks t (file t o a).1 := by
      rcases puts_file t o a with hsame | ⟨loc, hplace'', hput⟩
      · rw [hsame]
        exact .refl t
      · obtain rfl := Except.ok.inj (hplace.symm.trans hplace'')
        exact (hput.within (h.isReal hnear hnames)).links
    exact h.resolve_eq hroot hlinks

omit hpath in
/-- **A run reports the same in a mirror**, which then still mirrors the tree. The induction is on
the artifacts. -/
theorem runEach_mirrored (hreal : o.dryRun = false) (stopOnError : Bool) {as : List Artifact}
    (hrelative : ∀ a ∈ as, IsRelative a) :
    Mirrors o (pathOf root) (runEach o stopOnError t as).tree
        (runEach (o.mirrored root) stopOnError t' as).tree ∧
      (runEach (o.mirrored root) stopOnError t' as).results =
        (runEach o stopOnError t as).results := by
  induction as generalizing t t' with
  | nil => exact ⟨h, rfl⟩
  | cons a as ih =>
    obtain ⟨ha, hrelative⟩ := List.forall_mem_cons.1 hrelative
    obtain ⟨hmirrors, hreport⟩ := h.file_mirrored hroot ha hreal rfl
    rw [runEach, runEach, hreport]
    cases settle stopOnError a.path (file t o a).2 with
    | error e => exact ⟨hmirrors, rfl⟩
    | ok r =>
      obtain ⟨htree, hresults⟩ := ih hmirrors hrelative
      refine ⟨htree, ?_⟩
      simp only [Outcome.cons, hresults]

end Mirrors

end FormScaffold.Sync
