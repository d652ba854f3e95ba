import FormScaffold.Proofs.Sync.Filing

/-! # Places that are reached

Whether an artifact can be synced is a matter of the names on the way to its place, and of the files
there.

* **`IsOpen`** — the file of an artifact can be written;
* **`IsPassable`** — the place of an artifact can be looked at, however often it is synced;
* **`IsStopped`** — the place of an artifact cannot be looked at;
* `fileAt_of_blocked`, `fileAt_of_long` — what is written where the file cannot be;
* **`file_of_isOpen`**, `file_of_isStopped`, **`file_of_isClosed`** — what syncing an artifact does
  in each case;
* `file_item?` — in all cases the tree stays, is paved on the way to the place, or is renewed;
* `file_sameAt`, `file_eq_file_iff` — what this leaves elsewhere;
* **`file_of_isPassable`**, `isStopped_of_not_isPassable` — what syncing does as far as places are
  passable. -/

namespace FormScaffold.Sync

/-- A path that leads on by the names. -/
structure IsPathOf (steps : List String) (path : String) : Prop where
  ofText : Path.ofText path = ⟨.here, steps⟩
  ne_nil : steps ≠ []
  names : ∀ name ∈ steps, IsName name

/-- The file of an artifact can be written: the names on the way to it are short enough, and no file
stands there. -/
def IsOpen (t : FileTree) (o : Options) (path : String) : Prop :=
  ∃ loc, destination t o path = .ok loc ∧ (pathOf loc).flaw? = none ∧ FileTree.HasNames loc ∧
    ¬Contents.IsBlocked t.item? loc

/-- The place of an artifact can be looked at, however often it is synced: its path is not too long
and can name files, and where one of its names is too long, a file stands on the way to it. -/
def IsPassable (t : FileTree) (o : Options) (path : String) : Prop :=
  ∃ loc, destination t o path = .ok loc ∧ (pathOf loc).flaw? = none ∧
    ∀ above name, above ++ [name] <+: loc → ¬IsShort name →
      Contents.IsBlocked t.item? (above ++ [name])

/-- The place of an artifact cannot be looked at. -/
def IsStopped (t : FileTree) (o : Options) (path : String) : Prop :=
  (∃ e, destination t o path = .error (.path e)) ∨
    ∃ loc, destination t o path = .ok loc ∧ ((pathOf loc).flaw? ≠ none ∨
      ∃ above name rest, loc = above ++ name :: rest ∧ FileTree.HasNames above ∧ IsName name ∧
        ¬IsShort name ∧ t.item? above = some .directory)

/-! ## Ways -/

/-- The way to a place is free, or a file stands on it, or a first name on it is too long. -/
theorem way_cases {f : Contents} (h : f.IsSimple) {loc : Location}
    (hnames : ∀ name ∈ loc, IsName name) :
    (FileTree.HasNames loc ∧ ¬f.IsBlocked loc) ∨
      (∃ above name rest bytes, loc = above ++ name :: rest ∧ FileTree.HasNames above ∧
        f above = some (.file bytes)) ∨
      ∃ above name rest, loc = above ++ name :: rest ∧ FileTree.HasNames above ∧ IsName name ∧
        ¬IsShort name ∧ ¬f.IsBlocked (above ++ [name]) ∧
        (f above = some .directory ∨ f above = none) := by
  -- A file above is reached by names that are short enough.
  have hblocked : ∀ l, l <+: loc →
      (∀ above, above <+: l → above ≠ l → FileTree.HasNames above) → f.IsBlocked l →
      ∃ above name rest bytes, loc = above ++ name :: rest ∧ FileTree.HasNames above ∧
        f above = some (.file bytes) := by
    rintro l hl hshort ⟨above, bytes, habove, hne, hfile⟩
    obtain ⟨rest, hrest⟩ := habove.trans hl
    cases rest with
    | nil =>
      rw [List.append_nil] at hrest
      exact absurd (habove.eq_of_length_le (hrest ▸ hl.length_le)) hne
    | cons name rest => exact ⟨above, name, rest, bytes, hrest.symm, hshort above habove hne, hfile⟩
  rcases FileTree.hasNames_or_long hnames with
    hshort | ⟨above, name, rest, hsplit, habove, hname, hlong⟩
  · by_cases hfile : f.IsBlocked loc
    · exact .inr (.inl (hblocked _ List.prefix_rfl (fun above hp _ => hshort.mono hp) hfile))
    · exact .inl ⟨hshort, hfile⟩
  · have hinit : above ++ [name] <+: loc := by
      rw [hsplit, List.prefix_append_right_inj, List.cons_prefix_cons]
      exact ⟨rfl, List.nil_prefix⟩
    by_cases hfile : f.IsBlocked (above ++ [name])
    · refine .inr (.inl (hblocked _ hinit (fun l hl hne => ?_) hfile))
      exact habove.mono ((List.prefix_concat_iff.1 hl).resolve_left hne)
    · refine .inr (.inr ⟨above, name, rest, hsplit, habove, hname, hlong, hfile, ?_⟩)
      exact h.directory_or_none hfile (List.prefix_append _ _) (by simp)

/-! ## What is written at a place -/

section At

variable {t : FileTree} (h : Contents.IsSimple t.item?) {o : Options} (hreal : o.dryRun = false)
  {a : Artifact} {loc : Location} (hflaw : (pathOf loc).flaw? = none) {above : Location}
  {name : String} {rest : Location} (hsplit : loc = above ++ name :: rest)
  (habove : FileTree.HasNames above)
include h hreal hflaw hsplit habove

/-- Nothing is written behind a file. -/
theorem fileAt_of_blocked {bytes : ByteArray} (hfile : t.item? above = some (.file bytes)) :
    existing t loc = .ok none ∧ ∃ t' : FileTree,
      fileAt t o a loc none = (t', .error (.file .unwritable)) ∧ t'.item? = t.item? := by
  refine ⟨?_, ?_⟩
  · rw [hsplit] at hflaw ⊢
    exact existing_of_file h habove hfile hflaw
  · rcases List.eq_nil_or_concat loc with rfl | ⟨parent, last, hconcat⟩
    · exact absurd hsplit.symm (by simp)
    · rw [List.concat_eq_append] at hconcat
      -- The file is on the way to the last directory, so that this one cannot be made.
      have hway : above <+: parent := by
        have hp : above <+: parent ++ [last] := by
          rw [← hconcat, hsplit]
          exact List.prefix_append _ _
        refine (List.prefix_concat_iff.1 hp).resolve_left ?_
        rw [← hconcat, hsplit]
        simp
      obtain ⟨t', e, hattempt, ht'⟩ := FileTree.attemptFile_of_blocked h hway hfile habove
        (hconcat ▸ hflaw) (Text.bytes a.content)
      rw [← hconcat] at hattempt
      refine ⟨t', ?_, ht'⟩
      rw [fileAt_none, storeAs_of_attempt hattempt hreal]
      rfl

/-- Where a name is too long, the way is paved up to it. -/
theorem fileAt_of_long (hname : IsName name) (hlong : ¬IsShort name)
    (hfree : ¬Contents.IsBlocked t.item? (above ++ [name])) (hnone : t.item? above = none) :
    existing t loc = .ok none ∧ ∃ t' : FileTree,
      fileAt t o a loc none = (t', .error (.file .unwritable)) ∧
        t'.item? = Contents.paved t.item? above := by
  subst hsplit
  obtain ⟨t', e, hattempt, ht'⟩ := FileTree.attemptFile_of_long h habove hname hlong hfree hflaw
    (Text.bytes a.content)
  refine ⟨existing_of_absent h habove hnone hflaw, t', ?_, ht'⟩
  rw [fileAt_none, storeAs_of_attempt hattempt hreal]
  rfl

end At

/-! ## Syncing -/

section Place

variable {t : FileTree} (h : Contents.IsSimple t.item?) {o : Options} {a : Artifact}
  {loc : Location} (hplace : destination t o a.path = .ok loc)

include h in
/-- A run stops at an artifact whose place cannot be looked at. -/
theorem existing_of_isStopped (hs : IsStopped t o a.path) :
    (∃ e, destination t o a.path = .error (.path e)) ∨
      ∃ loc e, destination t o a.path = .ok loc ∧ existing t loc = .error (.path e) := by
  have hflawed : ∀ loc, destination t o a.path = .ok loc → (pathOf loc).flaw? ≠ none →
      existing t loc = .error (.path .nameTooLong) := by
    intro loc hplace hflaw
    obtain ⟨e, he⟩ := Option.ne_none_iff_exists'.1 hflaw
    -- The path was resolved, so that nothing but its length can be wrong with it.
    have htext : textFlaw? (pathOf loc).text ≠ some e := by
      rw [textFlaw?_of_destination hplace]
      simp
    obtain rfl := (Path.eq_of_flaw? he).resolve_left htext
    exact existing_of_long_path (by rw [FileTree.place, he])
  rcases hs with he | ⟨loc, hplace, hflaw | ⟨above, name, rest, rfl, habove, hname, hlong,
    hdirectory⟩⟩
  · exact .inl he
  · exact .inr ⟨loc, _, hplace, hflawed loc hplace hflaw⟩
  · by_cases hflaw : (pathOf (above ++ name :: rest)).flaw? = none
    · exact .inr ⟨_, _, hplace, existing_of_long h habove hdirectory hname hlong hflaw⟩
    · exact .inr ⟨_, _, hplace, hflawed _ hplace hflaw⟩

include h in
/-- A run stops at an artifact whose place cannot be looked at. -/
theorem file_of_isStopped (hs : IsStopped t o a.path) :
    ∃ e, file t o a = (t, .error (.path e)) := by
  rcases existing_of_isStopped h hs with ⟨e, he⟩ | ⟨loc, e, hplace, he⟩
  · exact ⟨e, file_of_error he⟩
  · exact ⟨e, file_of_unseen hplace he⟩

include h in
/-- What is stopped stays so while directories stay. -/
theorem IsStopped.mono (hs : IsStopped t o a.path) {t' : FileTree}
    (h' : Contents.IsSimple t'.item?)
    (hkept : ∀ l, t.item? l = some .directory → t'.item? l = some .directory) :
    IsStopped t' o a.path := by
  have hsame := destination_congr (o := o) h h' a.path
  rcases hs with ⟨e, he⟩ | ⟨loc, hplace, hflaw | ⟨above, name, rest, hsplit, habove, hname,
    hlong, hdirectory⟩⟩
  · exact .inl ⟨e, hsame ▸ he⟩
  · exact .inr ⟨loc, hsame ▸ hplace, .inl hflaw⟩
  · exact .inr ⟨loc, hsame ▸ hplace, .inr ⟨above, name, rest, hsplit, habove, hname, hlong,
      hkept above hdirectory⟩⟩

include h hplace

/-- **An artifact is synced to an open place.** It is created, filled anew, or left as it is. -/
theorem file_of_isOpen (hreal : o.dryRun = false) (hne : loc ≠ []) (hp : IsOpen t o a.path) :
    existing t loc = .ok (t.item? loc) ∧ ∃ t' : FileTree,
      file t o a = (t', filed o.strategy a (t.item? loc)) ∧
        t'.item? = (renewal o.strategy a loc).apply t.item? := by
  obtain ⟨loc', hplace', hflaw, hnames, hfree⟩ := hp
  obtain rfl : loc = loc' := Except.ok.inj (hplace.symm.trans hplace')
  have hexisting := existing_of_hasNames h hnames hflaw
  obtain ⟨t', hfile, ht'⟩ := fileAt_of_free h hnames hne hflaw hfree hreal (a := a)
  refine ⟨hexisting, t', ?_, ht'⟩
  rw [file_of_seen hplace hexisting, hfile]

/-- Nothing is written behind a file. -/
theorem file_of_blocked (hreal : o.dryRun = false) (hflaw : (pathOf loc).flaw? = none)
    {above : Location} {name : String} {rest : Location} {bytes : ByteArray}
    (hsplit : loc = above ++ name :: rest) (habove : FileTree.HasNames above)
    (hfile : t.item? above = some (.file bytes)) :
    existing t loc = .ok none ∧ ∃ t' : FileTree,
      file t o a = (t', .error (.file .unwritable)) ∧ t'.item? = t.item? := by
  obtain ⟨hexisting, t', hfileAt, ht'⟩ :=
    fileAt_of_blocked h hreal hflaw hsplit habove hfile (a := a)
  refine ⟨hexisting, t', ?_, ht'⟩
  rw [file_of_seen hplace hexisting, hfileAt]

/-- Where a name is too long, the way is paved up to it. -/
theorem file_of_long (hreal : o.dryRun = false) (hflaw : (pathOf loc).flaw? = none)
    {above : Location} {name : String} {rest : Location} (hsplit : loc = above ++ name :: rest)
    (habove : FileTree.HasNames above) (hname : IsName name) (hlong : ¬IsShort name)
    (hfree : ¬Contents.IsBlocked t.item? (above ++ [name])) (hnone : t.item? above = none) :
    existing t loc = .ok none ∧ ∃ t' : FileTree,
      file t o a = (t', .error (.file .unwritable)) ∧ t'.item? = Contents.paved t.item? above := by
  obtain ⟨hexisting, t', hfileAt, ht'⟩ :=
    fileAt_of_long h hreal hflaw hsplit habove hname hlong hfree hnone (a := a)
  refine ⟨hexisting, t', ?_, ht'⟩
  rw [file_of_seen hplace hexisting, hfileAt]

/-- **Where the place is neither stopped nor open, nothing is seen and nothing is written**, though
the way may be paved as far as its names are short enough. -/
theorem file_of_isClosed (hreal : o.dryRun = false) (hnames : ∀ name ∈ loc, IsName name)
    (hp : ¬IsOpen t o a.path) :
    IsStopped t o a.path ∨
      existing t loc = .ok none ∧ ∃ t' : FileTree,
        file t o a = (t', .error (.file .unwritable)) ∧
          (t'.item? = t.item? ∨ ∃ above name rest, loc = above ++ name :: rest ∧
            FileTree.HasNames above ∧ IsName name ∧ ¬IsShort name ∧
            ¬Contents.IsBlocked t.item? (above ++ [name]) ∧ t.item? above = none ∧
            t'.item? = Contents.paved t.item? above) := by
  by_cases hflaw : (pathOf loc).flaw? = none
  · -- A closed way has a file on it or a name that is too long.
    rcases way_cases h hnames with ⟨hshort, hfree⟩ | ⟨above, name, rest, bytes, hsplit, habove,
      hfile⟩ | ⟨above, name, rest, hsplit, habove, hname, hlong, hfree, hdirectory | hnone⟩
    · exact absurd ⟨loc, hplace, hflaw, hshort, hfree⟩ hp
    · obtain ⟨hexisting, t', hfile', ht'⟩ :=
        file_of_blocked h hplace hreal hflaw hsplit habove hfile
      exact .inr ⟨hexisting, t', hfile', .inl ht'⟩
    · exact .inl (.inr ⟨loc, hplace, .inr ⟨above, name, rest, hsplit, habove, hname, hlong,
        hdirectory⟩⟩)
    · obtain ⟨hexisting, t', hfile', ht'⟩ :=
        file_of_long h hplace hreal hflaw hsplit habove hname hlong hfree hnone
      exact .inr ⟨hexisting, t', hfile', .inr ⟨above, name, rest, hsplit, habove, hname, hlong,
        hfree, hnone, ht'⟩⟩
  · exact .inl (.inr ⟨loc, hplace, .inl hflaw⟩)

end Place

section Names

variable {t : FileTree} (h : Contents.IsSimple t.item?) {o : Options}
  (hcurrent : ∀ name ∈ o.current, IsName name) (hreal : o.dryRun = false) {a : Artifact}
include h hcurrent hreal

/-- **What syncing an artifact makes of a tree**: it stays, or the way to a place that is not open
is paved up to a name that is too long, or the file is renewed. -/
theorem file_item? :
    (file t o a).1.item? = t.item? ∨ ∃ loc, destination t o a.path = .ok loc ∧ loc ≠ [] ∧
      ((∃ above, above <+: loc ∧ ¬Contents.IsBlocked t.item? above ∧ t.item? above = none ∧
          (file t o a).1.item? = Contents.paved t.item? above) ∨
        (file t o a).1.item? = (renewal o.strategy a loc).apply t.item?) := by
  cases hplace : destination t o a.path with
  | error p =>
    refine .inl ?_
    rw [file_of_error hplace]
  | ok loc =>
    obtain ⟨hnames, hne⟩ := isName_of_destination h hcurrent hplace
    by_cases hp : IsOpen t o a.path
    · obtain ⟨-, t', hfile, ht'⟩ := file_of_isOpen h hplace hreal hne hp
      refine .inr ⟨loc, rfl, hne, .inr ?_⟩
      rw [hfile]
      exact ht'
    · -- Nothing is written on a closed way, which may be paved for a part.
      rcases file_of_isClosed h hplace hreal hnames hp with hs | ⟨-, t', hfile, hsame |
        ⟨above, name, rest, hsplit, -, -, -, hfree, hnone, ht'⟩⟩
      · obtain ⟨e, hfile⟩ := file_of_isStopped h hs
        refine .inl ?_
        rw [hfile]
      · refine .inl ?_
        rw [hfile]
        exact hsame
      · refine .inr ⟨loc, rfl, hne, .inl ⟨above, ?_, ?_, hnone, ?_⟩⟩
        · rw [hsplit]
          exact List.prefix_append _ _
        · exact fun hblocked => hfree (hblocked.mono (List.prefix_append _ _))
        · rw [hfile]
          exact ht'

/-- **Syncing an artifact leaves a tree simple, and its directories where they were.** What is made
are directories and files, each in a directory. -/
theorem file_keeps :
    Contents.IsSimple (file t o a).1.item? ∧
      ∀ l, t.item? l = some .directory → (file t o a).1.item? l = some .directory := by
  rcases file_item? h hcurrent hreal (a := a) with hsame | ⟨loc, -, hne, ⟨above, -, -, -, ht'⟩ |
    ht'⟩
  · rw [hsame]
    exact ⟨h, fun l hl => hl⟩
  · rw [ht']
    refine ⟨h.paved _, fun l hl => ?_⟩
    by_cases hway : l <+: above
    · exact Contents.paved_onWay _ hway
    · rw [Contents.paved_offWay _ hway, hl]
  · rw [ht']
    exact ⟨Renewal.isSimple_apply h hne, fun l hl => Renewal.apply_directory hl⟩

/-- **Syncing an artifact leaves the places that are apart from its own.** What matters at a place
is what stands there and whether a file stands on the way. -/
theorem file_sameAt {l : Location}
    (hapart : ∀ loc, destination t o a.path = .ok loc → ¬loc <+: l ∧ ¬l <+: loc) :
    Contents.SameAt (file t o a).1.item? t.item? l := by
  rcases file_item? h hcurrent hreal (a := a) with hsame | ⟨loc, hplace, -,
    ⟨above, habove, hfree, hnone, ht'⟩ | ht'⟩
  · rw [hsame]
    exact .refl _ l
  · have hoff : ¬l <+: above := fun hl => (hapart loc hplace).2 (hl.trans habove)
    rw [ht']
    refine ⟨Contents.paved_offWay _ hoff, ?_⟩
    simp only [Contents.IsBlocked, Contents.paved_eq_file_iff hfree hnone]
  · rw [ht']
    obtain ⟨hle, hge⟩ := hapart loc hplace
    exact ⟨Renewal.apply_offWay hge, Renewal.isBlocked_apply fun hp => absurd hp hle⟩

/-- **Syncing an artifact leaves the files of other places**, and puts none there. Only the place of
the artifact gets a file. -/
theorem file_eq_file_iff {l : Location} (hne : destination t o a.path ≠ .ok l)
    (bytes : ByteArray) :
    (file t o a).1.item? l = some (.file bytes) ↔ t.item? l = some (.file bytes) := by
  rcases file_item? h hcurrent hreal (a := a) with hsame | ⟨loc, hplace, -,
    ⟨above, -, hfree, hnone, ht'⟩ | ht'⟩
  · rw [hsame]
  · rw [ht']
    exact Contents.paved_eq_file_iff hfree hnone l bytes
  · rw [ht']
    refine Renewal.apply_eq_file_iff ?_
    rintro rfl
    exact hne hplace

end Names

/-! ## Paths of names -/

section Relative

variable {t : FileTree} (h : Contents.IsSimple t.item?) {o : Options}
  (hcurrent : ∀ name ∈ o.current, IsName name) {a : Artifact} {steps : List String}
  (hpath : IsPathOf steps a.path)
include h hcurrent hpath

/-- The place of an artifact, unless a path cannot be resolved. -/
theorem destination_of_isPathOf :
    (∃ e, destination t o a.path = .error (.path e)) ∨
      destination t o a.path = .ok (base o ++ steps) :=
  destination_cases h hcurrent hpath.ofText hpath.names hpath.ne_nil

/-- The place of an artifact that has one. -/
theorem eq_of_destination {loc : Location} (hplace : destination t o a.path = .ok loc) :
    loc = base o ++ steps := by
  rcases destination_of_isPathOf h hcurrent hpath with ⟨e, hd⟩ | hd
  · rw [hd] at hplace
    exact absurd hplace (by simp)
  · rw [hd] at hplace
    exact (Except.ok.inj hplace).symm

omit h in
/-- The names on the way to the place of an artifact stand for themselves. -/
theorem isName_place : ∀ name ∈ base o ++ steps, IsName name := by
  rw [List.forall_mem_append]
  exact ⟨isName_base hcurrent, hpath.names⟩

/-- **A place whose names are short enough can be looked at.** Looking is stopped only where a name
on the way is too long. -/
theorem isPassable_of_hasNames (hroot : ∀ name ∈ o.root.steps, textFlaw? name = none)
    (hnames : FileTree.HasNames (base o ++ steps))
    (hflaw : (pathOf (base o ++ steps)).flaw? = none) :
    IsPassable t o a.path := by
  refine ⟨_, destination_of_resolve h hcurrent hpath.ofText hpath.names hpath.ne_nil hroot
    (Path.flaw?_eq_none.1 hflaw).1, hflaw, fun above name hle hlong => ?_⟩
  exact absurd (hnames name (hle.subset (by simp))).2 hlong

/-- A place whose names are short enough stops no run. -/
theorem not_isStopped_of_hasNames (hroot : ∀ name ∈ o.root.steps, textFlaw? name = none)
    (hnames : FileTree.HasNames (base o ++ steps))
    (hflaw : (pathOf (base o ++ steps)).flaw? = none) : ¬IsStopped t o a.path := by
  have hplace := destination_of_resolve h hcurrent hpath.ofText hpath.names hpath.ne_nil hroot
    (Path.flaw?_eq_none.1 hflaw).1
  rintro (⟨e, he⟩ | ⟨loc, hplace', hflawed | ⟨above, name, rest, hsplit, -, -, hlong, -⟩⟩)
  · rw [hplace] at he
    exact absurd he (by simp)
  · obtain rfl := Except.ok.inj (hplace.symm.trans hplace')
    exact hflawed hflaw
  · obtain rfl := Except.ok.inj (hplace.symm.trans hplace')
    exact hlong (hnames name (by rw [hsplit]; simp)).2

/-- **Syncing a passable artifact renews its file**, and the report says what was found. A place
that is not open is reported as a conflict, and its file stays. -/
theorem file_of_isPassable (hreal : o.dryRun = false)
    (hwritable : IsWritable a) (hp : IsPassable t o a.path) :
    ∃ (t' : FileTree) (r : Except Problem MergeResult),
      file t o a = (t', r) ∧
        settle false a.path r = .ok (report o.strategy a (base o ++ steps) t.item?) ∧
        t'.item? = (renewal o.strategy a (base o ++ steps)).apply t.item? := by
  obtain ⟨loc, hplace, hflaw, hlong⟩ := hp
  obtain rfl := eq_of_destination h hcurrent hpath hplace
  rcases way_cases h (isName_place hcurrent hpath) with ⟨hnames, hfree⟩ | ⟨above, name, rest, bytes,
    hsplit, habove, hfile⟩ | ⟨above, name, rest, hsplit, habove, hname, hlong', hfree, -⟩
  · have hne : base o ++ steps ≠ [] := by simp [hpath.ne_nil]
    obtain ⟨-, t', hfile, ht'⟩ :=
      file_of_isOpen h hplace hreal hne ⟨_, hplace, hflaw, hnames, hfree⟩
    refine ⟨t', _, hfile, ?_, ht'⟩
    rw [report, if_neg hfree, hwritable.filed_eq]
    exact settle_outcome _ a _
  · have hblocked : Contents.IsBlocked t.item? (base o ++ steps) :=
      hsplit ▸ Contents.isBlocked_of_file hfile name rest
    obtain ⟨-, t', hfile', ht'⟩ := file_of_blocked h hplace hreal hflaw hsplit habove hfile
    refine ⟨t', _, hfile', ?_, ?_⟩
    · rw [report, if_pos hblocked]
      rfl
    · rw [ht']
      exact (Renewal.apply_of_blocked hblocked).symm
  · -- Above a name that is too long a file stands, as the path is passable.
    refine absurd (hlong above name ?_ hlong') hfree
    rw [hsplit, List.prefix_append_right_inj, List.cons_prefix_cons]
    exact ⟨rfl, List.nil_prefix⟩

/-- **An artifact that is not passable is stopped once it was synced**: it was so before, or the way
was paved up to a name that is too long. -/
theorem isStopped_of_not_isPassable (hreal : o.dryRun = false) (hp : ¬IsPassable t o a.path) :
    IsStopped (file t o a).1 o a.path := by
  -- What is stopped changes nothing, and is stopped the next time.
  have hstay : IsStopped t o a.path → IsStopped (file t o a).1 o a.path := by
    intro hs
    obtain ⟨e, hfile⟩ := file_of_isStopped h hs
    rwa [hfile]
  rcases destination_of_isPathOf h hcurrent hpath with hplace | hplace
  · exact hstay (.inl hplace)
  · by_cases hflaw : (pathOf (base o ++ steps)).flaw? = none
    · rcases way_cases h (isName_place hcurrent hpath) with ⟨hnames, -⟩ | ⟨above, name, rest, bytes,
        hsplit, habove, hfile⟩ | ⟨above, name, rest, hsplit, habove, hname, hlong, hfree,
        hd | hnone⟩
      · refine absurd ⟨_, hplace, hflaw, fun front name hle hlong => ?_⟩ hp
        exact absurd (hnames name (hle.subset (by simp))).2 hlong
      · -- The file stands above every name that is too long.
        refine absurd ⟨_, hplace, hflaw, fun front long hle hlong => ?_⟩ hp
        have hle' : above <+: base o ++ steps := hsplit ▸ List.prefix_append _ _
        rcases List.prefix_or_prefix_of_prefix hle hle' with hfront | hfront
        · exact absurd (habove long (hfront.subset (by simp))).2 hlong
        · refine ⟨above, bytes, hfront, ?_, hfile⟩
          rintro rfl
          exact hlong (habove long (by simp)).2
      · exact hstay (.inr ⟨_, hplace, .inr ⟨above, name, rest, hsplit, habove, hname, hlong, hd⟩⟩)
      · -- The way is paved, and ends before the name that is too long.
        obtain ⟨-, t', hfile, ht'⟩ :=
          file_of_long h hplace hreal hflaw hsplit habove hname hlong hfree hnone
        have hsimple : Contents.IsSimple t'.item? := ht' ▸ h.paved _
        have hmade : t'.item? above = some .directory := by
          rw [ht']
          exact Contents.paved_onWay _ List.prefix_rfl
        rw [hfile]
        refine .inr ⟨_, ?_, .inr ⟨above, name, rest, hsplit, habove, hname, hlong, hmade⟩⟩
        rw [destination_congr hsimple h, hplace]
    · exact hstay (.inr ⟨_, hplace, .inl hflaw⟩)

end Relative

end FormScaffold.Sync
