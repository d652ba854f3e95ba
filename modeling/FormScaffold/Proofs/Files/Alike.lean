import FormScaffold.Proofs.Files.Changing
import FormScaffold.Proofs.Files.Resolving

/-! # Trees that are alike in a zone

What a path of names does depends on what stands on the way. In trees that are alike in a zone of
locations, where no links stand, a path that stays in the zone is followed in the same way, and a
change made along it leaves the trees alike.

* `Alike` — trees with the same items in a zone, none of them a link;
* `place_eq`, `find_eq` — paths in the zone lead to the same;
* **`attemptFile_alike`** — a file is put in both trees, or in neither. -/

namespace FormScaffold.FileTree

/-- The same stands in both trees at all locations of a zone, and no links. -/
structure Alike (zone : Location → Prop) (t t' : FileTree) : Prop where
  item : ∀ l, zone l → t'.item? l = t.item? l
  linkless : ∀ l target, zone l → t.item? l ≠ some (.link target)

/-- All that is on the way to a location of the zone is in the zone. -/
def IsZone (zone : Location → Prop) : Prop := ∀ l loc, l <+: loc → zone loc → zone l

namespace Alike

variable {zone : Location → Prop} {t t' : FileTree} (h : Alike zone t t')
include h

/-- Being alike goes both ways. -/
theorem symm : Alike zone t' t :=
  ⟨fun l hl => (h.item l hl).symm, fun l target hl => h.item l hl ▸ h.linkless l target hl⟩

/-- The same item is put in both trees. -/
theorem put {loc : Location} (hne : loc ≠ []) {item : Item}
    (hitem : ∀ target, item ≠ .link target) :
    Alike zone (t.put loc item) (t'.put loc item) := by
  refine ⟨fun l hl => ?_, fun l target hl => ?_⟩
  · rw [item?_put t' hne, item?_put t hne, h.item l hl]
  · rw [item?_put t hne]
    split
    · exact fun heq => hitem target (Option.some.inj heq)
    · exact h.linkless l target hl

/-! ## Following paths -/

variable (hzone : IsZone zone)
include hzone

/-- Locations of the zone are real. -/
theorem isReal {loc : Location} (hloc : zone loc) (hnames : ∀ name ∈ loc, IsName name) :
    t.IsReal loc :=
  ⟨hnames, fun l target hl => h.linkless l target (hzone l loc hl hloc)⟩

/-- **Steps in the zone lead to the same place.** No link is met on the way, since there are none in
the zone of a simple tree. -/
theorem walk_eq {loc : Location} {steps : List String} (hloc : zone (loc ++ steps))
    (hnames : ∀ name ∈ steps, IsName name) (links : Nat) :
    t'.walk links loc steps = t.walk links loc steps := by
  induction steps generalizing loc with
  | nil => rw [walk_nil, walk_nil]
  | cons name rest ih =>
    obtain ⟨hname, hrest⟩ := List.forall_mem_cons.1 hnames
    have hsplit : loc ++ name :: rest = loc ++ [name] ++ rest := by simp
    have hhere := h.item loc (hzone _ _ (List.prefix_append _ _) hloc)
    rw [hsplit] at hloc
    have hnext := hzone _ _ (List.prefix_append _ _) hloc
    have hitem := h.item _ hnext
    -- What the next step does depends on what stands here and at its end, and on its name.
    by_cases hdirectory : t.item? loc = some .directory
    · have hdirectory' := hhere.trans hdirectory
      by_cases hshort : IsShort name
      · cases hfound : t.item? (loc ++ [name]) with
        | none =>
          rw [walk_vacant hdirectory hname hshort hfound,
            walk_vacant hdirectory' hname hshort (hitem.trans hfound)]
        | some item =>
          have hsome : t.item? (loc ++ [name]) ≠ none := by simp [hfound]
          rw [walk_taken hdirectory hname hshort hsome fun target => h.linkless _ target hnext,
            walk_taken hdirectory' hname hshort (hitem ▸ hsome)
              fun target => h.symm.linkless _ target hnext]
          exact ih hloc hrest
      · rw [walk_long hdirectory hname hshort, walk_long hdirectory' hname hshort]
    · rw [walk_of_not_directory hdirectory, walk_of_not_directory (hhere ▸ hdirectory)]

variable {loc : Location} (hloc : zone loc) (hnames : ∀ name ∈ loc, IsName name)
include hloc hnames

/-- A path in the zone leads to the same place. -/
theorem place_eq : t'.place [] ⟨.root, loc⟩ = t.place [] ⟨.root, loc⟩ := by
  unfold place
  cases (⟨.root, loc⟩ : Path).flaw? with
  | some e => rfl
  | none => exact @walk_eq _ _ _ h hzone [] loc hloc hnames maxLinks

/-- A path in the zone leads to the same item. -/
theorem find_eq : t'.find [] ⟨.root, loc⟩ = t.find [] ⟨.root, loc⟩ := by
  rw [find, find, h.place_eq hzone hloc hnames]
  rcases place_of_isReal (h.isReal hzone hloc hnames) with hp | ⟨hp, -, -⟩ | ⟨e, -, hp⟩
  · simp only [hp, bind, Except.bind, h.item loc hloc]
  · rw [hp]
    rfl
  · rw [hp]
    rfl

end Alike

/-! ## Changes -/

/-- No link stands at the end of the path of a real location. -/
theorem endsInLink_of_isReal {t : FileTree} {parent : Location} {name : String}
    (h : t.IsReal (parent ++ [name])) :
    t.endsInLink [] ⟨.root, parent ++ [name]⟩ = false := by
  have hname : (⟨.root, parent ++ [name]⟩ : Path).name = name := by simp [Path.name]
  -- The entry is looked up in the directory above, and is the location itself if it is found.
  have hentry : t.entry [] ⟨.root, parent ++ [name]⟩ = .ok (parent ++ [name]) ∨
      ∃ e, t.entry [] ⟨.root, parent ++ [name]⟩ = .error e := by
    rw [entry, parent_concat, find, hname]
    rcases place_of_isReal (h.mono (List.prefix_append _ _)) with hp | ⟨hp, -, -⟩ | ⟨e, -, hp⟩
    · rw [hp]
      cases hitem : t.item? parent with
      | none => exact .inr ⟨.missing, by simp [hitem, bind, Except.bind]⟩
      | some item =>
        cases hdirectory : item.isDirectory with
        | true => exact .inl (by simp [hitem, hdirectory, bind, Except.bind, pure, Except.pure])
        | false =>
          exact .inr ⟨.notDirectory, by
            simp [hitem, hdirectory, bind, Except.bind, pure, Except.pure]⟩
    · exact .inr ⟨.missing, by rw [hp]; rfl⟩
    · exact .inr ⟨e, by rw [hp]; rfl⟩
  unfold endsInLink
  rcases hentry with he | ⟨e, he⟩
  · rw [he]
    simp only [Except.map]
    split
    · rename_i target heq
      exact absurd (Except.ok.inj heq) (h.linkless _ target List.prefix_rfl)
    · rfl
  · rw [he]
    rfl

namespace Alike

variable {zone : Location → Prop} {t t' : FileTree} (h : Alike zone t t') (hzone : IsZone zone)
include h hzone

/-- A directory is made in both trees, or in neither. -/
theorem makeDirectory_alike {parent : Location} {name : String} (hloc : zone (parent ++ [name]))
    (hnames : ∀ n ∈ parent ++ [name], IsName n) (onWay : Bool) :
    (∃ e, t.makeDirectory [] onWay ⟨.root, parent ++ [name]⟩ = .error e ∧
        t'.makeDirectory [] onWay ⟨.root, parent ++ [name]⟩ = .error e) ∨
      ∃ u u', t.makeDirectory [] onWay ⟨.root, parent ++ [name]⟩ = .ok u ∧
        t'.makeDirectory [] onWay ⟨.root, parent ++ [name]⟩ = .ok u' ∧ Alike zone u u' := by
  have hlink := endsInLink_of_isReal (h.isReal hzone hloc hnames)
  have hlink' := endsInLink_of_isReal (h.symm.isReal hzone hloc hnames)
  have hsame : t'.isDirectory (parent ++ [name]) = t.isDirectory (parent ++ [name]) := by
    rw [isDirectory, isDirectory, h.item _ hloc]
  unfold makeDirectory
  rw [h.place_eq hzone hloc hnames, hlink, hlink']
  rcases place_of_isReal (h.isReal hzone hloc hnames) with hp | ⟨hp, hne, -⟩ | ⟨e, -, hp⟩
  · rw [hp]
    simp only [hsame]
    split
    · exact .inr ⟨t, t', rfl, rfl, h⟩
    · exact .inl ⟨_, rfl, rfl⟩
  · rw [hp]
    exact .inr ⟨_, _, rfl, rfl, h.put hne (by simp)⟩
  · rw [hp]
    exact .inl ⟨_, rfl, rfl⟩

/-- Directories are made along a way in both trees, as far as that goes. -/
theorem makeAlong_alike {done rest : List String} (hloc : zone (done ++ rest))
    (hnames : ∀ name ∈ done ++ rest, IsName name) :
    Alike zone (t.makeAlong [] .root done rest).tree (t'.makeAlong [] .root done rest).tree ∧
      (t'.makeAlong [] .root done rest).error? = (t.makeAlong [] .root done rest).error? := by
  induction rest generalizing t t' done with
  | nil => exact ⟨h, rfl⟩
  | cons name rest ih =>
    have hsplit : done ++ name :: rest = done ++ [name] ++ rest := by simp
    rw [hsplit] at hloc hnames
    have hnext : done ++ [name] <+: done ++ [name] ++ rest := List.prefix_append _ _
    rw [makeAlong_cons, makeAlong_cons]
    rcases h.makeDirectory_alike hzone (hzone _ _ hnext hloc)
      (fun n hn => hnames n (hnext.subset hn)) (!rest.isEmpty) with ⟨e, he, he'⟩ |
      ⟨u, u', hu, hu', halike⟩
    · rw [he, he']
      exact ⟨h, rfl⟩
    · rw [hu, hu']
      exact ih halike hloc hnames

/-- Making directories at a location of the zone leaves trees alike, and fails in both or in none.
-/
theorem attemptDirectories_alike {loc : Location} (hloc : zone loc)
    (hnames : ∀ name ∈ loc, IsName name) :
    Alike zone (t.attemptDirectories [] ⟨.root, loc⟩).tree
        (t'.attemptDirectories [] ⟨.root, loc⟩).tree ∧
      (t'.attemptDirectories [] ⟨.root, loc⟩).error? =
        (t.attemptDirectories [] ⟨.root, loc⟩).error? := by
  unfold attemptDirectories
  split
  · exact ⟨h, rfl⟩
  · exact @makeAlong_alike _ _ _ h hzone [] loc hloc hnames

/-- A file is written in both trees, or in neither. -/
theorem write_alike {loc : Location} (hloc : zone loc) (hne : loc ≠ [])
    (hnames : ∀ name ∈ loc, IsName name) (bytes : ByteArray) :
    (∃ e, t.write [] ⟨.root, loc⟩ bytes = .error e ∧ t'.write [] ⟨.root, loc⟩ bytes = .error e) ∨
      ∃ u u', t.write [] ⟨.root, loc⟩ bytes = .ok u ∧ t'.write [] ⟨.root, loc⟩ bytes = .ok u' ∧
        Alike zone u u' := by
  have hsame : t'.isDirectory loc = t.isDirectory loc := by
    rw [isDirectory, isDirectory, h.item _ hloc]
  have hput : Alike zone (t.put loc (.file bytes)) (t'.put loc (.file bytes)) :=
    h.put hne (by simp)
  unfold write
  rw [h.place_eq hzone hloc hnames]
  rcases place_of_isReal (h.isReal hzone hloc hnames) with hp | ⟨hp, -, -⟩ | ⟨e, -, hp⟩
  · rw [hp]
    simp only [bind, Except.bind, pure, Except.pure, hsame]
    split
    · exact .inl ⟨_, rfl, rfl⟩
    · exact .inr ⟨_, _, rfl, rfl, hput⟩
  · rw [hp]
    exact .inr ⟨_, _, rfl, rfl, hput⟩
  · rw [hp]
    exact .inl ⟨_, rfl, rfl⟩

/-- **A file is put in both trees, or in neither**, and the way to it is made as far in one as in
the other. -/
theorem attemptFile_alike {loc : Location} (hloc : zone loc) (hne : loc ≠ [])
    (hnames : ∀ name ∈ loc, IsName name) (bytes : ByteArray) :
    Alike zone (t.attemptFile [] ⟨.root, loc⟩ bytes).tree
        (t'.attemptFile [] ⟨.root, loc⟩ bytes).tree ∧
      (t'.attemptFile [] ⟨.root, loc⟩ bytes).error? =
        (t.attemptFile [] ⟨.root, loc⟩ bytes).error? := by
  have hway : loc.dropLast <+: loc := List.dropLast_prefix loc
  obtain ⟨hmade, herror⟩ := h.attemptDirectories_alike hzone (hzone _ _ hway hloc)
    fun name hname => hnames name (hway.subset hname)
  unfold attemptFile Path.parent
  simp only [herror]
  cases (t.attemptDirectories [] ⟨.root, loc.dropLast⟩).error? with
  | some e => exact ⟨hmade, rfl⟩
  | none =>
    rcases hmade.write_alike hzone hloc hne hnames bytes with ⟨e, he, he'⟩ |
      ⟨u, u', hu, hu', halike⟩
    · simp only [he, he']
      exact ⟨hmade, trivial⟩
    · simp only [hu, hu']
      exact ⟨halike, trivial⟩

end Alike

end FormScaffold.FileTree
