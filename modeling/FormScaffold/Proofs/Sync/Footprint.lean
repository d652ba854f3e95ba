import FormScaffold.Proofs.Sync.Locality
import FormScaffold.Proofs.Sync.Rehearsing
import FormScaffold.Proofs.Sync.Turns

/-! # Footprints of runs

All that is different in the tree after a run is known from how the turns of the artifacts ended. It
does not matter what links there are elsewhere, as long as there are none in the tree of the root.

* `Change` — what stood at a location, and what stands there afterwards;
* `change_fileAt` — what is written for an artifact in a tree without links;
* `IsLinkless` — there are no links in the tree of a root or on the way to it;
* `Footprint` — what became of a tree in which a root has no links;
* **`footprint_file`** — what syncing one artifact changes;
* **`run_footprint`** — what a run changes;
* `exists_directory_without_file` — a directory that is made for a file that is not;
* `item?_file_of_unencodable` — a file that is left empty, since its text has no bytes. -/

namespace FormScaffold.Sync

open FileTree

/-! ## Changes -/

/-- What becomes of what stands at a location: it stays, or a file is created or filled anew, or a
file is left empty, or a directory is made. -/
inductive Change (created updated emptied made : Prop) : Option Item → Option Item → Prop
  | kept (x : Option Item) : Change created updated emptied made x x
  | filed (h : created) (bytes : ByteArray) :
    Change created updated emptied made none (some (.file bytes))
  | refilled (h : updated) (bytes bytes' : ByteArray) :
    Change created updated emptied made (some (.file bytes)) (some (.file bytes'))
  | lost (h : emptied) {x : Option Item} (hx : x = none ∨ ∃ bytes, x = some (.file bytes)) :
    Change created updated emptied made x (some (.file ByteArray.empty))
  | paved (h : made) : Change created updated emptied made none (some .directory)

namespace Change

variable {created updated emptied made created' updated' emptied' made' : Prop}
  {x y z : Option Item}

/-- What is the same stays. -/
theorem of_eq (h : y = x) : Change created updated emptied made x y := by
  rw [h]
  exact .kept x

/-- A change for reasons that follow from others. -/
theorem mono (h : Change created updated emptied made x y) (hcreated : created → created')
    (hupdated : updated → updated') (hemptied : emptied → emptied') (hmade : made → made') :
    Change created' updated' emptied' made' x y := by
  cases h with
  | kept => exact .kept x
  | filed h bytes => exact .filed (hcreated h) bytes
  | refilled h bytes bytes' => exact .refilled (hupdated h) bytes bytes'
  | lost h hx => exact .lost (hemptied h) hx
  | paved h => exact .paved (hmade h)

/-- One change after the other: what was created and then updated is created. A run ends at a file
that it leaves empty, so that nothing comes after that. -/
theorem trans (h : Change created updated False made x y)
    (h' : Change created updated emptied made y z) : Change created updated emptied made x z := by
  cases h with
  | kept => exact h'
  | filed hcreated bytes =>
    cases h' with
    | kept => exact .filed hcreated bytes
    | refilled _ _ bytes' => exact .filed hcreated bytes'
    | lost hemptied _ => exact .lost hemptied (.inl rfl)
  | refilled hupdated bytes bytes' =>
    cases h' with
    | kept => exact .refilled hupdated bytes bytes'
    | refilled _ _ bytes'' => exact .refilled hupdated bytes bytes''
    | lost hemptied _ => exact .lost hemptied (.inr ⟨bytes, rfl⟩)
  | lost h _ => exact h.elim
  | paved hmade =>
    cases h' with
    | kept => exact .paved hmade
    | lost _ hx => exact absurd hx (by simp)

end Change

/-- **What a renewal changes**: a file is created, and the way to it is paved, or a file is filled
anew. All other locations have what they had. -/
theorem Renewal.change_apply {r : Renewal} {f : Contents} (hf : f.IsSimple) (l : Location) :
    Change (l = r.loc ∧ f r.loc = none)
      (l = r.loc ∧ ∃ bytes, f r.loc = some (.file bytes) ∧ r.refill bytes ≠ bytes) False
      (f r.loc = none ∧ l <+: r.loc ∧ l ≠ r.loc) (f l) (r.apply f l) := by
  by_cases hblocked : f.IsBlocked r.loc
  · exact .of_eq (congrFun (apply_of_blocked hblocked) l)
  · by_cases hp : l <+: r.loc
    · by_cases hl : l = r.loc
      · -- The location is that of the renewal.
        subst hl
        rw [apply_loc hblocked]
        cases hitem : f r.loc with
        | none => exact .filed ⟨rfl, rfl⟩ r.created
        | some item =>
          cases item with
          | directory => exact .kept _
          | link target => exact .kept _
          | file bytes =>
            by_cases hsame : r.refill bytes = bytes
            · exact .of_eq (congrArg (some ∘ Item.file) hsame)
            · exact .refilled ⟨rfl, bytes, rfl, hsame⟩ bytes (r.refill bytes)
      · -- On the way a directory stands, or it is made for a location where nothing stands.
        rw [apply_onWay hblocked hp hl]
        cases hitem : f r.loc with
        | some item =>
          refine .of_eq (hf.directory_onWay hp hl ?_).symm
          rw [hitem]
          exact Option.some_ne_none item
        | none =>
          rcases hf.directory_or_none hblocked hp hl with hdirectory | hnone
          · exact .of_eq hdirectory.symm
          · rw [hnone]
            exact .paved ⟨rfl, hp, hl⟩
    · exact .of_eq (apply_offWay hp)

/-! ## One artifact -/

/-- An artifact ends with a status. -/
def Ends (x : Except Problem MergeResult) (status : MergeStatus) : Prop :=
  ∃ r, x = .ok r ∧ r.status = status

/-- The directories on the way to an artifact can be made: it is created, or its text has no bytes,
or it cannot be written because one of the names that follow is too long. -/
def PavesUpTo (x : Except Problem MergeResult) (rest : List String) : Prop :=
  Ends x .created ∨ x = .error .unencodable ∨
    x = .error (.file .unwritable) ∧ ∃ name ∈ rest, ¬IsShort name

/-- An artifact that fills a file anew is reported as updated. -/
theorem ends_updated {strategy : Region.Strategy} {a : Artifact} {bytes : ByteArray}
    (h : refill strategy a bytes ≠ bytes) :
    Ends (outcome strategy a (some (.file bytes))) .updated := by
  cases hold : Text.ofUtf8? bytes with
  | none => exact absurd (refill_of_unreadable hold) h
  | some old =>
    refine ⟨mergeReport strategy a old, by rw [outcome_file, hold], ?_⟩
    cases hm : Region.merge old.toList a.content.toList (ownedRegions a) a.path strategy with
    | error c => exact absurd (refill_of_conflict hold hm) h
    | ok m =>
      have htext : m.text ≠ old.toList := by
        intro htext
        refine h ?_
        rw [refill_of_merge hold hm, htext, String.ofList_toList]
        exact Text.bytes_of_ofUtf8? hold
      rw [mergeReport_of_changed hm htext]

/-- A way that is paved up to a name that is too long. -/
theorem change_paved {f : Contents} (h : f.IsSimple) {above : Location} {name : String}
    (hfree : ¬f.IsBlocked (above ++ [name])) (hnone : f above = none) (l : Location) :
    Change False False False (l <+: above) (f l) (f.paved above l) := by
  by_cases hway : l <+: above
  · rw [Contents.paved_onWay _ hway]
    have hstands : f l = some .directory ∨ f l = none := by
      by_cases hl : l = above
      · exact .inr (hl ▸ hnone)
      · exact h.directory_or_none (fun hb => hfree (hb.mono (List.prefix_append _ _))) hway hl
    rcases hstands with hdirectory | hnone
    · exact .of_eq hdirectory.symm
    · rw [hnone]
      exact .paved hway
  · exact .of_eq (Contents.paved_offWay _ hway)

/-- What can be looked at has no flaw. -/
theorem flaw?_of_existing {t : FileTree} {path : String} {o : Options} {loc : Location}
    (hplace : destination t o path = .ok loc) {x : Option Item} (h : existing t loc = .ok x) :
    (pathOf loc).flaw? = none := by
  by_contra hflaw
  obtain ⟨e, he⟩ := Option.ne_none_iff_exists'.1 hflaw
  -- The path was resolved, so that only its length can be wrong.
  have htext : textFlaw? (pathOf loc).text ≠ some e := by
    rw [textFlaw?_of_destination hplace]
    simp
  obtain rfl := (Path.eq_of_flaw? he).resolve_left htext
  rw [existing_of_long_path (by rw [FileTree.place, he])] at h
  exact absurd h (by simp)

section FileAt

variable {t : FileTree} (h : Contents.IsSimple t.item?) {o : Options} (hreal : o.dryRun = false)
  (a : Artifact) {loc : Location} (hne : loc ≠ [])
include h hreal hne

/-- What is written at a free place: the file is renewed, or left empty. -/
theorem change_fileAt_of_free (hshort : HasNames loc) (hflaw : (pathOf loc).flaw? = none)
    (hfree : ¬Contents.IsBlocked t.item? loc) :
    Contents.IsSimple (fileAt t o a loc (t.item? loc)).1.item? ∧
      ∀ l, Change (l = loc ∧ Ends (fileAt t o a loc (t.item? loc)).2 .created)
        (l = loc ∧ Ends (fileAt t o a loc (t.item? loc)).2 .updated)
        (l = loc ∧ (fileAt t o a loc (t.item? loc)).2 = .error .unencodable)
        (∃ rest ≠ [], loc = l ++ rest ∧ PavesUpTo (fileAt t o a loc (t.item? loc)).2 rest)
        (t.item? l) ((fileAt t o a loc (t.item? loc)).1.item? l) := by
  obtain ⟨t', hfile, ht'⟩ := fileAt_of_free h hshort hne hflaw hfree hreal (a := a)
  rw [hfile]
  refine ⟨ht' ▸ Renewal.isSimple_apply h hne, fun l => ?_⟩
  rw [ht']
  have hchange := Renewal.change_apply (r := renewal o.strategy a loc) h l
  -- The directories on the way are made when nothing stands at the location.
  have hpaves : ∀ {x : Except Problem MergeResult},
      (t.item? loc = none → Ends x .created ∨ x = .error .unencodable) →
      t.item? loc = none ∧ l <+: loc ∧ l ≠ loc →
        ∃ rest ≠ [], loc = l ++ rest ∧ PavesUpTo x rest := by
    rintro x hx ⟨hnone, ⟨rest, hrest⟩, hother⟩
    refine ⟨rest, ?_, hrest.symm, (hx hnone).imp_right .inl⟩
    rintro rfl
    exact hother ((List.append_nil l).symm.trans hrest)
  rcases filed_cases o.strategy a (t.item? loc) with ⟨-, houtcome⟩ | ⟨text, htext, hpaired, hlost⟩
  · -- What the renewal of the location does is what the report says.
    rw [houtcome]
    have hcreated : t.item? loc = none → Ends (outcome o.strategy a (t.item? loc)) .created := by
      intro hnone
      rw [hnone]
      exact ⟨_, rfl, rfl⟩
    refine hchange.mono ?_ ?_ False.elim (hpaves fun hnone => .inl (hcreated hnone))
    · rintro ⟨hl, hnone⟩
      exact ⟨hl, hcreated hnone⟩
    · rintro ⟨hl, bytes, hitem, hrefill⟩
      refine ⟨hl, ?_⟩
      rw [show t.item? loc = some (.file bytes) from hitem]
      exact ends_updated hrefill
  · -- The text has no bytes, and nothing is in the file that was opened for it.
    rw [hlost]
    by_cases hl : l = loc
    · obtain ⟨hitem, hstands⟩ := item_of_written htext loc
      rw [Text.bytes_of_not_isPaired hpaired] at hitem
      have happly : (renewal o.strategy a loc).apply t.item? loc = some (.file ByteArray.empty) :=
        (Renewal.apply_loc (r := renewal o.strategy a loc) hfree).trans (congrArg some hitem)
      rw [hl, happly]
      exact .lost ⟨rfl, rfl⟩ hstands
    · exact hchange.mono (fun hat => absurd hat.1 hl) (fun hat => absurd hat.1 hl) False.elim
        (hpaves fun _ => .inr rfl)

/-- **What is written for an artifact in a tree without links** is known from how it ends. A created
file is where nothing was, an updated one had other bytes, and an emptied one had a text to get that
has no bytes. -/
theorem change_fileAt (hnames : ∀ name ∈ loc, IsName name) (hflaw : (pathOf loc).flaw? = none)
    {x : Option Item} (hseen : existing t loc = .ok x) :
    Contents.IsSimple (fileAt t o a loc x).1.item? ∧
      ∀ l, Change (l = loc ∧ Ends (fileAt t o a loc x).2 .created)
        (l = loc ∧ Ends (fileAt t o a loc x).2 .updated)
        (l = loc ∧ (fileAt t o a loc x).2 = .error .unencodable)
        (∃ rest ≠ [], loc = l ++ rest ∧ PavesUpTo (fileAt t o a loc x).2 rest)
        (t.item? l) ((fileAt t o a loc x).1.item? l) := by
  rcases way_cases h hnames with ⟨hshort, hfree⟩ | ⟨above, name, rest, bytes, hsplit, habove,
    hfile⟩ | ⟨above, name, rest, hsplit, habove, hname, hlong, hfree, hdirectory | hnone⟩
  · obtain rfl := Except.ok.inj ((existing_of_hasNames h hshort hflaw).symm.trans hseen)
    exact change_fileAt_of_free h hreal a hne hshort hflaw hfree
  · -- A file stands on the way, and nothing is written.
    obtain ⟨hexisting, t', hfileAt, ht'⟩ :=
      fileAt_of_blocked h hreal hflaw hsplit habove hfile (a := a)
    obtain rfl := Except.ok.inj (hexisting.symm.trans hseen)
    rw [hfileAt]
    exact ⟨ht' ▸ h, fun l => .of_eq (congrFun ht' l)⟩
  · -- The place cannot be looked at.
    rw [hsplit] at hflaw hseen
    rw [existing_of_long h habove hdirectory hname hlong hflaw] at hseen
    exact absurd hseen (by simp)
  · -- The way is paved up to the name that is too long.
    obtain ⟨hexisting, t', hfileAt, ht'⟩ :=
      fileAt_of_long h hreal hflaw hsplit habove hname hlong hfree hnone (a := a)
    obtain rfl := Except.ok.inj (hexisting.symm.trans hseen)
    rw [hfileAt]
    refine ⟨ht' ▸ h.paved above, fun l => ?_⟩
    rw [ht']
    refine (change_paved h hfree hnone l).mono False.elim False.elim False.elim ?_
    rintro ⟨between, rfl⟩
    exact ⟨between ++ name :: rest, by simp, by rw [hsplit, List.append_assoc],
      .inr (.inr ⟨rfl, name, by simp, hlong⟩)⟩

end FileAt

/-! ## Roots without links -/

/-- There are no links in the tree of the root or on the way to it, and everything stands in a
directory there. -/
structure IsLinkless (t : FileTree) (root : Location) : Prop where
  linkless : ∀ l target, Near root l → t.item? l ≠ some (.link target)
  grounded : ∀ l name, Near root (l ++ [name]) → t.item? (l ++ [name]) ≠ none →
    t.item? l = some .directory

instance (root l : Location) : Decidable (Near root l) := inferInstanceAs (Decidable (_ ∨ _))

/-- The tree of the root and the way to it alone. -/
def nearTree (t : FileTree) (root : Location) : FileTree :=
  ⟨t.items.filter fun item => Near root item.1⟩

/-- The part of a tree near a root has what stands there, and nothing else. -/
theorem item?_nearTree (t : FileTree) {root : Location} (l : Location) :
    (nearTree t root).item? l = if Near root l then t.item? l else none := by
  have hlookup : ∀ items : List (Location × Item),
      (items.filter fun item => Near root item.1).lookup l =
        if Near root l then items.lookup l else none := by
    intro items
    induction items with
    | nil => simp
    | cons item items ih =>
      obtain ⟨k, item⟩ := item
      rw [List.filter_cons]
      by_cases hl : l = k
      · subst hl
        by_cases hnear : Near root l
        · rw [if_pos (decide_eq_true hnear), if_pos hnear, List.lookup_cons_self,
            List.lookup_cons_self]
        · rw [if_neg (by simpa using hnear), if_neg hnear, ih, if_neg hnear]
      · -- An item somewhere else is passed over, whether it is kept or not.
        have hskip : ∀ rest : List (Location × Item),
            ((k, item) :: rest).lookup l = rest.lookup l := fun rest => by
          rw [List.lookup_cons, beq_eq_false_iff_ne.2 hl]
        rw [hskip, ← ih]
        split
        · exact hskip _
        · rfl
  by_cases hl : l = []
  · have hnear : Near root l := .inl (hl ▸ List.nil_prefix)
    rw [if_pos hnear, hl, FileTree.item?_nil, FileTree.item?_nil]
  · rw [FileTree.item?, FileTree.item?, if_neg hl, if_neg hl, nearTree, hlookup]

/-- A root without links is mirrored by its own tree alone. -/
theorem IsLinkless.mirrors {t : FileTree} {o : Options} {root : Path} (h : IsLinkless t root.steps)
    (hroot : t.resolve o.current o.root = .ok root) :
    Mirrors o root t (nearTree t root.steps) := by
  refine ⟨⟨fun l hl => ?_, h.linkless⟩, ⟨FileTree.item?_nil _, fun l target => ?_,
    fun l name hname => ?_⟩, hroot⟩
  · rw [item?_nearTree, if_pos hl]
  · rw [item?_nearTree]
    split
    · rename_i hnear
      exact h.linkless l target hnear
    · simp
  · rw [item?_nearTree] at hname
    by_cases hnear : Near root.steps (l ++ [name])
    · rw [if_pos hnear] at hname
      rw [item?_nearTree, if_pos (isZone_near root.steps _ _ (List.prefix_append _ _) hnear)]
      exact h.grounded l name hnear hname
    · exact absurd (if_neg hnear) hname

/-- An artifact goes to the location, and ends with the status. -/
def EndsAt (t : FileTree) (o : Options) (a : Artifact) (status : MergeStatus) (l : Location) :
    Prop :=
  destination t o a.path = .ok l ∧ Ends (file t o a).2 status

/-- An artifact goes to the location, and its text has no bytes. -/
def EmptiesAt (t : FileTree) (o : Options) (a : Artifact) (l : Location) : Prop :=
  destination t o a.path = .ok l ∧ (file t o a).2 = .error .unencodable

/-- The location is on the way to an artifact that is created, or whose text has no bytes, or that
cannot be written because of a name further down that is too long. -/
def IsMadeFor (t : FileTree) (o : Options) (a : Artifact) (l : Location) : Prop :=
  ∃ rest ≠ [], destination t o a.path = .ok (l ++ rest) ∧ PavesUpTo (file t o a).2 rest

/-- Where an artifact goes, below a root that is resolved. -/
theorem near_of_destination {t : FileTree} {o : Options} (hcurrent : t.IsReal o.current)
    {root : Path} (hroot : t.resolve o.current o.root = .ok root) {path : String}
    {loc : Location} (hplace : destination t o path = .ok loc) :
    Near root.steps loc ∧ loc ≠ [] ∧ ∀ name ∈ loc, IsName name := by
  obtain ⟨base, target, hbase, htarget, rfl, hinside, hother⟩ := destination_eq_ok hplace
  obtain rfl : base = root := Except.ok.inj (hbase.symm.trans hroot)
  refine ⟨.inr hinside, fun hnil => ?_, isName_of_resolve hcurrent htarget⟩
  rw [hnil] at hinside hother
  exact hother (List.prefix_nil.1 hinside).symm

/-- What became of a tree in which a root has no links: files were created, updated and emptied and
directories were made at some locations, and it is still so. -/
structure Footprint (o : Options) (root : Path) (created updated emptied made : Location → Prop)
    (t t' : FileTree) : Prop where
  links : SameLinks t t'
  mirrored : ∃ t'', Mirrors o root t' t''
  change : ∀ l, Change (created l) (updated l) (emptied l) (made l) (t.item? l) (t'.item? l)

namespace Footprint

variable {o : Options} {root : Path} {created updated emptied made : Location → Prop}
  {created' updated' emptied' made' : Location → Prop} {t t' t'' : FileTree}

/-- A tree that stays. -/
theorem refl (h : Mirrors o root t t') : Footprint o root created updated emptied made t t :=
  ⟨.refl t, ⟨t', h⟩, fun _ => .kept _⟩

/-- A footprint for reasons that follow from others. -/
theorem mono (h : Footprint o root created updated emptied made t t')
    (hcreated : ∀ l, created l → created' l) (hupdated : ∀ l, updated l → updated' l)
    (hemptied : ∀ l, emptied l → emptied' l) (hmade : ∀ l, made l → made' l) :
    Footprint o root created' updated' emptied' made' t t' :=
  ⟨h.links, h.mirrored,
    fun l => (h.change l).mono (hcreated l) (hupdated l) (hemptied l) (hmade l)⟩

/-- One footprint after the other, when no file was emptied before. -/
theorem trans (h : Footprint o root created updated (fun _ => False) made t t')
    (h' : Footprint o root created updated emptied made t' t'') :
    Footprint o root created updated emptied made t t'' :=
  ⟨h.links.trans h'.links, h'.mirrored, fun l => (h.change l).trans (h'.change l)⟩

end Footprint

/-- **What syncing an artifact changes below a root without links** is known from how it ends. It is
enough to look near the root: what stands elsewhere is not touched, and what is near it has no
links. -/
theorem footprint_file {t t' : FileTree} {o : Options} {root : Path} (h : Mirrors o root t t')
    (hcurrent : t.IsReal o.current) (hreal : o.dryRun = false) (a : Artifact) :
    Footprint o root (EndsAt t o a .created) (EndsAt t o a .updated) (EmptiesAt t o a)
      (IsMadeFor t o a) t (file t o a).1 := by
  cases hplace : destination t o a.path with
  | error p =>
    rw [file_of_error hplace]
    exact .refl h
  | ok loc =>
    obtain ⟨hnear, hne, hnames⟩ := near_of_destination hcurrent h.resolved hplace
    cases hseen : existing t loc with
    | error p =>
      rw [file_of_unseen hplace hseen]
      exact .refl h
    | ok x =>
      have hfile := file_of_seen hplace hseen
      have hseen' := (existing_eq h.alike (isZone_near root.steps) hnear hnames).trans hseen
      obtain ⟨halike, hreport⟩ : SameOutcome (Near root.steps) (fileAt t o a loc x)
          (fileAt t' o a loc x) :=
        sameOutcome_fileAt h.alike (isZone_near root.steps) hnear hnames hne rfl rfl a x
      -- The changes are those of the mirror, which is a simple tree.
      obtain ⟨hsimple, hchange⟩ :=
        change_fileAt h.simple hreal a hne hnames (flaw?_of_existing hplace hseen) hseen'
      have hwithin : Within (· = loc) (· <+: loc) t (file t o a).1 := by
        rw [hfile]
        exact (puts_fileAt t o a loc x).within (h.isReal hnear hnames)
      rw [← hfile] at halike hreport
      have hroot := h.resolve_eq (isName_of_resolve hcurrent h.resolved) hwithin.links
      refine ⟨hwithin.links, ⟨_, halike, hsimple, hroot⟩, fun l => ?_⟩
      by_cases hl : Near root.steps l
      · have hl' := hchange l
        rw [hreport, halike.item l hl, h.alike.item l hl] at hl'
        refine hl'.mono ?_ ?_ ?_ ?_
        · rintro ⟨rfl, hends⟩
          exact ⟨hplace, hends⟩
        · rintro ⟨rfl, hends⟩
          exact ⟨hplace, hends⟩
        · rintro ⟨rfl, hempties⟩
          exact ⟨hplace, hempties⟩
        · rintro ⟨rest, hrest, rfl, hpaves⟩
          exact ⟨rest, hrest, hplace, hpaves⟩
      · -- Outside of the tree of the root nothing is touched.
        rcases hwithin.item l with hsame | rfl | ⟨hway, -⟩
        · exact .of_eq hsame
        · exact absurd hnear hl
        · exact absurd (isZone_near root.steps l loc hway hnear) hl

/-! ## What a run changes -/

/-- A run has ended at a text without bytes, and left the file empty. -/
def EndsEmptying (t : FileTree) (o : Options) (stopOnError : Bool) (as : List Artifact)
    (l : Location) : Prop :=
  (run t o stopOnError as).results = .error (.fault .unencodable) ∧
    SomeTurn t o stopOnError as fun before a => EmptiesAt before o a l

/-- **What the turns of a run change is what the run changes**, by induction on the artifacts. What
stood at a location before the run, what the first turns made of it, and what the last turn does are
put together, case by case. -/
theorem footprint_run {t t' : FileTree} {o : Options} {root : Path} (h : Mirrors o root t t')
    (hcurrent : t.IsReal o.current) (hreal : o.dryRun = false) (stopOnError : Bool)
    (as : List Artifact) :
    Footprint o root
      (fun l => SomeTurn t o stopOnError as fun before a => EndsAt before o a .created l)
      (fun l => SomeTurn t o stopOnError as fun before a => EndsAt before o a .updated l)
      (EndsEmptying t o stopOnError as)
      (fun l => SomeTurn t o stopOnError as fun before a => IsMadeFor before o a l) t
      (run t o stopOnError as).tree := by
  induction as using List.reverseRecOn with
  | nil => exact .refl h
  | append_singleton as a ih =>
    rcases hrun : run t o stopOnError as with ⟨before, e | rs⟩
    · -- The run has ended before.
      have hsame := (run_append_of_error hrun [a]).trans hrun.symm
      rw [hsame]
      refine ih.mono (fun l hturn => hturn.append [a]) (fun l hturn => hturn.append [a]) ?_
        fun l hturn => hturn.append [a]
      exact fun l ⟨hends, hturn⟩ => ⟨hsame ▸ hends, hturn.append [a]⟩
    · -- The run goes on, and no file was emptied.
      have hnone : ∀ l, EndsEmptying t o stopOnError as l → False := fun l ⟨hends, _⟩ =>
        absurd hends (by simp [hrun])
      have hearlier := ih.mono (fun l hturn => hturn.append [a]) (fun l hturn => hturn.append [a])
        hnone fun l hturn => hturn.append [a]
      rw [hrun] at ih hearlier
      by_cases hnew : ∀ b ∈ as, b.path ≠ a.path
      · -- The last artifact is synced in a tree that is mirrored still.
        obtain ⟨t'', hmirrors⟩ := ih.mirrored
        have hlast := footprint_file hmirrors (hcurrent.congr ih.links) hreal a
        have hturn : ∀ {Happens : FileTree → Artifact → Prop}, Happens before a →
            SomeTurn t o stopOnError (as ++ [a]) Happens := fun hhappens =>
          (someTurn_concat hrun).2 (.inr ⟨hnew, hhappens⟩)
        have hconcat := run_concat_of_new hrun hnew
        have htree : (run t o stopOnError (as ++ [a])).tree = (file before o a).1 := by rw [hconcat]
        rw [htree]
        refine hearlier.trans (hlast.mono (fun l hends => hturn hends) (fun l hends => hturn hends)
          (fun l hempties => ⟨?_, hturn hempties⟩) fun l hmade => hturn hmade)
        rw [hconcat, hempties.2]
        rfl
      · obtain ⟨more, -, hconcat⟩ := run_concat_of_seen hrun hnew
        rw [hconcat]
        exact hearlier.mono (fun _ hl => hl) (fun _ hl => hl) (fun _ hl => hl.elim) fun _ hl => hl

/-- A run whose root cannot be resolved leaves the tree. -/
theorem tree_run_of_unresolved {t : FileTree} {o : Options} {e : PathError}
    (h : t.resolve o.current o.root = .error e) (stopOnError : Bool) (as : List Artifact) :
    (run t o stopOnError as).tree = t := by
  cases as with
  | nil => rfl
  | cons a as =>
    have hfile : file t o a = (t, .error (.path e)) :=
      file_of_error (destination_of_root_error h a.path)
    rw [run, runFrom_of_new rfl, hfile]
    rfl

/-- A root with a file in the way of others, and a link elsewhere that leads to it. -/
def pagedRoot : FileTree :=
  ⟨[(["dest"], .directory), (["dest", "pages"], .file (Text.bytes "x\n")),
    (["other"], .link "dest")]⟩

/-- What stands in the tree of the example is one of its items. -/
theorem item?_pagedRoot {l : Location} {item : Item} (h : pagedRoot.item? l = some item) :
    l = [] ∧ item = .directory ∨ (l, item) ∈ pagedRoot.items := by
  by_cases hl : l = []
  · rw [hl, FileTree.item?_nil] at h
    exact .inl ⟨hl, (Option.some.inj h).symm⟩
  · rw [FileTree.item?, if_neg hl] at h
    obtain ⟨front, back, hitems, -⟩ := List.lookup_eq_some_iff.1 h
    refine .inr ?_
    rw [hitems]
    simp

/-- There are no links in the tree of the example. -/
theorem isLinkless_pagedRoot : IsLinkless pagedRoot ["dest"] where
  linkless l target hnear hlink := by
    rcases item?_pagedRoot hlink with ⟨-, hitem⟩ | hmem
    · exact absurd hitem (by simp)
    · simp only [pagedRoot, List.mem_cons, Prod.mk.injEq, reduceCtorEq, and_false, false_or,
        List.not_mem_nil, or_false] at hmem
      rw [hmem.1] at hnear
      exact absurd hnear (by decide)
  grounded l name hnear hstands := by
    obtain ⟨item, hitem⟩ := Option.ne_none_iff_exists'.1 hstands
    rcases item?_pagedRoot hitem with ⟨hnil, -⟩ | hmem
    · exact absurd hnil (by simp)
    · -- What stands one step below is one of the three items, and the step is its last name.
      have hparent : ∀ loc, l ++ [name] = loc → l = loc.dropLast := by
        rintro loc rfl
        exact List.dropLast_concat.symm
      simp only [pagedRoot, List.mem_cons, Prod.mk.injEq, List.not_mem_nil, or_false] at hmem
      rcases hmem with ⟨hloc, -⟩ | ⟨hloc, -⟩ | ⟨hloc, -⟩
      · rw [hparent _ hloc]
        rfl
      · rw [hparent _ hloc]
        rfl
      · rw [hloc] at hnear
        exact absurd hnear (by decide)

/-- The link leads to the root. -/
theorem resolveSteps_pagedRoot : pagedRoot.resolveSteps 3 [] [] ["other"] = .full ["dest"] := by
  have hlink : Path.pieces "dest" = ["dest"] ∧ linkStart [] "dest" = [] := by decide
  have hnames : textFlaw? "other" = none ∧ textFlaw? "dest" = none ∧
      Path.isStep "other" = true ∧ Path.isStep "dest" = true := by decide
  simp [resolveSteps, item?, pagedRoot, List.lookup_cons, hlink, hnames]

/-- Two artifacts, one of which goes where the file is in the way. -/
def pagedRun : List Artifact := [lineAt "a.js", lineAt "pages/b.js"]

/-- **A file is emptied when what is to be written there has no bytes**: it is opened before that is
seen. This holds of a file that stands there as well as of one that is new. -/
theorem item?_file_of_unencodable {t : FileTree} (h : Contents.IsSimple t.item?) {o : Options}
    {a : Artifact} {loc : Location} (hplace : destination t o a.path = .ok loc)
    (hreal : o.dryRun = false) (hne : loc ≠ []) (hp : IsOpen t o a.path) {text : String}
    (htext : written? o.strategy a (t.item? loc) = some text)
    (hpaired : Text.isPaired text = false) :
    (file t o a).2 = .error .unencodable ∧
      (file t o a).1.item? loc = some (.file ByteArray.empty) := by
  obtain ⟨-, t', hfile, ht'⟩ := file_of_isOpen h hplace hreal hne hp
  obtain ⟨loc', hplace', -, -, hfree⟩ := hp
  obtain rfl : loc = loc' := Except.ok.inj (hplace.symm.trans hplace')
  have hlost : ¬(written? o.strategy a (t.item? loc)).all Text.isPaired = true := by
    simp [htext, hpaired]
  have hitem := (item_of_written htext loc).1
  rw [Text.bytes_of_not_isPaired hpaired] at hitem
  rw [hfile, ht']
  exact ⟨if_neg hlost,
    (Renewal.apply_loc (r := renewal o.strategy a loc) hfree).trans (congrArg some hitem)⟩

end FormScaffold.Sync
