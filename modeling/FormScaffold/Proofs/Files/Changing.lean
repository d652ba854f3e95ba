import FormScaffold.Files.Change
import FormScaffold.Proofs.Files.Walking

/-! # Putting a file somewhere

A file is put at a location with the directories on the way, on a tree without links. Three things
can happen:

* **`attemptFile_of_free`** — the way is paved and the file is put at its end;
* `attemptFile_of_blocked` — a file stands on the way, and nothing changes;
* **`attemptFile_of_long`** — a name is too long, and the way is paved up to there. -/

namespace FormScaffold.FileTree

variable {t : FileTree}

/-- The names of a location are followed as they are. -/
def HasNames (loc : Location) : Prop := ∀ name ∈ loc, IsName name ∧ IsShort name

instance (loc : Location) : Decidable (HasNames loc) :=
  inferInstanceAs (Decidable (∀ name ∈ loc, _))

/-- The names on the way to a location are among its own. -/
theorem HasNames.mono {l loc : Location} (h : HasNames loc) (hinit : l <+: loc) :
    HasNames l := fun name hname => h name (hinit.subset hname)

/-- A location with one name more is followed as it is when both are. -/
theorem hasNames_concat {loc : Location} {name : String} :
    HasNames (loc ++ [name]) ↔ HasNames loc ∧ IsName name ∧ IsShort name := by
  rw [HasNames, List.forall_mem_append, List.forall_mem_singleton]
  rfl

/-- A location of a few modest names can be reached, and its path has no flaw. -/
theorem fits_of_isModest {loc : Location} (h : ∀ name ∈ loc, IsModest name)
    (hcount : loc.length ≤ 10) : HasNames loc ∧ (⟨.root, loc⟩ : Path).flaw? = none :=
  ⟨fun name hname => ⟨(h name hname).isName, (h name hname).isShort⟩,
    Path.flaw?_of_isModest h hcount⟩

/-- Names that lead on are all short enough, up to a first that is not. -/
theorem hasNames_or_long {loc : Location} (h : ∀ name ∈ loc, IsName name) :
    HasNames loc ∨ ∃ above name rest, loc = above ++ name :: rest ∧ HasNames above ∧ IsName name ∧
      ¬IsShort name := by
  induction loc with
  | nil => exact .inl fun name hname => absurd hname (by simp)
  | cons name loc ih =>
    have hname := h name List.mem_cons_self
    by_cases hshort : IsShort name
    · rcases ih fun m hm => h m (List.mem_cons_of_mem _ hm) with
        hloc | ⟨above, long, rest, rfl, habove, hlong⟩
      · exact .inl (List.forall_mem_cons.2 ⟨⟨hname, hshort⟩, hloc⟩)
      · exact .inr ⟨name :: above, long, rest, rfl,
          List.forall_mem_cons.2 ⟨⟨hname, hshort⟩, habove⟩, hlong⟩
    · exact .inr ⟨[], name, loc, rfl, fun m hm => absurd hm (by simp), hname, hshort⟩

/-- The path of a location without its last name is that of the directory above. -/
theorem parent_concat (loc : Location) (name : String) :
    (⟨.root, loc ++ [name]⟩ : Path).parent = ⟨.root, loc⟩ := by
  rw [Path.parent, List.dropLast_concat]

section Simple

variable (h : Contents.IsSimple t.item?)
include h

/-- On a tree without links no path ends in one. -/
theorem endsInLink_eq_false (current : Location) (p : Path) : t.endsInLink current p = false := by
  unfold endsInLink
  split
  · rename_i target hlink
    cases hentry : t.entry current p with
    | error e =>
      rw [hentry] at hlink
      cases hlink
    | ok loc =>
      rw [hentry] at hlink
      exact absurd (Except.ok.inj hlink) (h.linkless loc target)
  · rfl

/-- A path that leads through something there goes on from it. -/
theorem place_append {front rest : Location} (hfront : HasNames front)
    (hitem : t.item? front ≠ none) (hflaw : (⟨.root, front ++ rest⟩ : Path).flaw? = none) :
    t.place [] ⟨.root, front ++ rest⟩ = t.walk maxLinks front rest := by
  rw [place_of_flaw?_eq_none hflaw]
  exact @walk_append _ h [] _ hfront hitem maxLinks rest

/-- Something that is there is reached. -/
theorem place_taken {loc : Location} (hloc : HasNames loc) (hitem : t.item? loc ≠ none)
    (hflaw : (⟨.root, loc⟩ : Path).flaw? = none) : t.place [] ⟨.root, loc⟩ = .ok (.taken loc) := by
  have hplace := @place_append _ h loc [] hloc hitem (by rwa [List.append_nil])
  rwa [List.append_nil, walk_nil] at hplace

/-! ## Directories -/

section Step

variable {loc : Location} (hloc : HasNames loc) (hdirectory : t.item? loc = some .directory)
  {name : String} (hname : IsName name)
  (hflaw : (⟨.root, loc ++ [name]⟩ : Path).flaw? = none)
include hloc hdirectory hname hflaw

omit h hloc hdirectory hname hflaw in
/-- Where a directory stands, something stands. -/
theorem item?_ne_none_of_directory {l : Location} (hl : t.item? l = some .directory) :
    t.item? l ≠ none := by
  rw [hl]
  exact Option.some_ne_none _

/-- A name that is not there leads to its vacant place. -/
theorem place_vacant (hshort : IsShort name) (hitem : t.item? (loc ++ [name]) = none) :
    t.place [] ⟨.root, loc ++ [name]⟩ = .ok (.vacant (loc ++ [name])) := by
  rw [place_append h hloc (item?_ne_none_of_directory hdirectory) hflaw,
    walk_vacant hdirectory hname hshort hitem]
  rfl

/-- A name that is too long leads nowhere. -/
theorem place_long (hlong : ¬IsShort name) :
    t.place [] ⟨.root, loc ++ [name]⟩ = .error .nameTooLong := by
  rw [place_append h hloc (item?_ne_none_of_directory hdirectory) hflaw,
    walk_long hdirectory hname hlong]

omit hdirectory in
/-- Where a directory stands, none is made, and that is no failure. -/
theorem makeDirectory_taken (hshort : IsShort name)
    (hitem : t.item? (loc ++ [name]) = some .directory) (onWay : Bool) :
    t.makeDirectory [] onWay ⟨.root, loc ++ [name]⟩ = .ok t := by
  unfold makeDirectory
  rw [place_taken h (hasNames_concat.2 ⟨hloc, hname, hshort⟩)
    (item?_ne_none_of_directory hitem) hflaw]
  exact if_pos (isDirectory_iff.2 hitem)

/-- Where nothing stands, a directory is made. -/
theorem makeDirectory_vacant (hshort : IsShort name) (hitem : t.item? (loc ++ [name]) = none)
    (onWay : Bool) :
    t.makeDirectory [] onWay ⟨.root, loc ++ [name]⟩ = .ok (t.put (loc ++ [name]) .directory) := by
  unfold makeDirectory
  rw [place_vacant h hloc hdirectory hname hflaw hshort hitem]
  simp only [endsInLink_eq_false h, Bool.false_eq_true, if_false]

omit hdirectory in
/-- Where a file stands, no directory can be made. -/
theorem makeDirectory_file (hshort : IsShort name) {bytes : ByteArray}
    (hitem : t.item? (loc ++ [name]) = some (.file bytes)) (onWay : Bool) :
    ∃ e, t.makeDirectory [] onWay ⟨.root, loc ++ [name]⟩ = .error e := by
  have hnot : ¬t.isDirectory (loc ++ [name]) = true := by
    rw [isDirectory_iff, hitem]
    simp
  unfold makeDirectory
  rw [place_taken h (hasNames_concat.2 ⟨hloc, hname, hshort⟩)
    (by rw [hitem]; exact Option.some_ne_none _) hflaw]
  exact ⟨_, if_neg hnot⟩

/-- Under a name that is too long, no directory can be made. -/
theorem makeDirectory_long (hlong : ¬IsShort name) (onWay : Bool) :
    ∃ e, t.makeDirectory [] onWay ⟨.root, loc ++ [name]⟩ = .error e := by
  unfold makeDirectory
  rw [place_long h hloc hdirectory hname hflaw hlong]
  exact ⟨_, rfl⟩

/-- A step on which no file stands is made: the directory is there, or it is put there. -/
theorem exists_makeDirectory (hshort : IsShort name)
    (hfree : ∀ l bytes, l <+: loc ++ [name] → t.item? l ≠ some (.file bytes)) :
    ∃ t' : FileTree, t'.item? = Contents.paved t.item? (loc ++ [name]) ∧
      ∀ onWay, t.makeDirectory [] onWay ⟨.root, loc ++ [name]⟩ = .ok t' := by
  by_cases hnone : t.item? (loc ++ [name]) = none
  · refine ⟨t.put (loc ++ [name]) .directory, ?_,
      makeDirectory_vacant h hloc hdirectory hname hflaw hshort hnone⟩
    rw [item?_put_eq t (by simp), ← h.paved_concat name hdirectory]
  · have htaken : t.item? (loc ++ [name]) = some .directory := by
      have hbelow : loc ++ [name] <+: loc ++ [name] ++ [name] := List.prefix_append _ _
      refine (h.directory_or_none ?_ hbelow (by simp)).resolve_right hnone
      rintro ⟨above, bytes, habove, hne, hfile⟩
      exact hfree above bytes ((List.prefix_concat_iff.1 habove).resolve_left hne) hfile
    exact ⟨t, (h.paved_of_directory htaken).symm,
      makeDirectory_taken h hloc hname hflaw hshort htaken⟩

end Step

/-! ## Ways -/

/-- **A way on which no file stands is paved.** The induction is on the names of the way; what
stands elsewhere is not touched. -/
theorem makeAlong_pave {loc front : Location} (hnames : HasNames (loc ++ front))
    (hdirectory : t.item? loc = some .directory)
    (hfree : ∀ l bytes, l <+: loc ++ front → t.item? l ≠ some (.file bytes))
    (hflaw : (⟨.root, loc ++ front⟩ : Path).flaw? = none) :
    ∃ t' : FileTree, t'.item? = Contents.paved t.item? (loc ++ front) ∧ ∀ rest,
      t.makeAlong [] .root loc (front ++ rest) = t'.makeAlong [] .root (loc ++ front) rest := by
  induction front generalizing t loc with
  | nil =>
    refine ⟨t, ?_, fun rest => by rw [List.append_nil, List.nil_append]⟩
    rw [List.append_nil, h.paved_of_directory hdirectory]
  | cons name front ih =>
    have hsplit : loc ++ name :: front = loc ++ [name] ++ front := by simp
    rw [hsplit] at hnames hfree hflaw ⊢
    have hway : loc ++ [name] <+: loc ++ [name] ++ front := List.prefix_append _ _
    obtain ⟨hloc, hname, hshort⟩ := hasNames_concat.1 (hnames.mono hway)
    obtain ⟨t₁, hitem, hmade⟩ := exists_makeDirectory h hloc hdirectory hname
      (Path.flaw?_onWay hway hflaw) hshort fun l bytes hl => hfree l bytes (hl.trans hway)
    have hdirectory₁ : t₁.item? (loc ++ [name]) = some .directory := by
      rw [hitem]
      exact Contents.paved_onWay _ List.prefix_rfl
    -- The rest of the way is free in the paved tree too, which has no new files.
    obtain ⟨t', ht', hrun⟩ := ih (hitem ▸ h.paved _) hnames hdirectory₁
      (fun l bytes hl hfile => hfree l bytes hl (Contents.eq_file_of_paved (hitem ▸ hfile))) hflaw
    refine ⟨t', ?_, fun rest => ?_⟩
    · rw [ht', hitem, Contents.paved_paved _ hway]
    · rw [← hrun rest, List.cons_append, makeAlong_cons, hmade]

/-- The way from the root. -/
theorem makeAlong_root {front : Location} (hnames : HasNames front)
    (hfree : ∀ l bytes, l <+: front → t.item? l ≠ some (.file bytes))
    (hflaw : (⟨.root, front⟩ : Path).flaw? = none) :
    ∃ t' : FileTree, t'.item? = Contents.paved t.item? front ∧ ∀ rest,
      t.makeAlong [] .root [] (front ++ rest) = t'.makeAlong [] .root front rest :=
  @makeAlong_pave _ h [] front hnames h.root hfree hflaw

omit h in
/-- Directories are made up to a step that fails. -/
theorem attemptDirectories_stop {front rest : Location} {name : String} {t' : FileTree}
    (hflaw : (⟨.root, front ++ name :: rest⟩ : Path).flaw? = none)
    (hrun : ∀ rest, t.makeAlong [] .root [] (front ++ rest) = t'.makeAlong [] .root front rest)
    (hstop : ∀ onWay, ∃ e, t'.makeDirectory [] onWay ⟨.root, front ++ [name]⟩ = .error e) :
    ∃ e, t.attemptDirectories [] ⟨.root, front ++ name :: rest⟩ = ⟨t', some e⟩ := by
  obtain ⟨e, he⟩ := hstop (!rest.isEmpty)
  refine ⟨e, ?_⟩
  unfold attemptDirectories
  rw [hflaw]
  show t.makeAlong [] .root [] (front ++ name :: rest) = _
  rw [hrun, makeAlong_cons, he]

omit h in
/-- Without its directories a file is not put anywhere. -/
theorem attemptFile_of_error {parent : Location} {name : String} {t' : FileTree} {e : PathError}
    (hmade : t.attemptDirectories [] ⟨.root, parent⟩ = ⟨t', some e⟩) (bytes : ByteArray) :
    t.attemptFile [] ⟨.root, parent ++ [name]⟩ bytes = ⟨t', some e⟩ := by
  unfold attemptFile
  simp only [parent_concat, hmade]

/-! ## Files -/

omit h in
/-- A file is put where nothing or a file is. -/
theorem write_eq_ok {loc : Location} (hloc : loc ≠ [])
    (hplace : t.place [] ⟨.root, loc⟩ = .ok (.vacant loc) ∨
      t.place [] ⟨.root, loc⟩ = .ok (.taken loc) ∧ t.item? loc ≠ some .directory)
    (bytes : ByteArray) :
    ∃ t' : FileTree, t.write [] ⟨.root, loc⟩ bytes = .ok t' ∧
      t'.item? = Function.update t.item? loc (some (.file bytes)) := by
  refine ⟨t.put loc (.file bytes), ?_, item?_put_eq t hloc _⟩
  rcases hplace with hplace | ⟨hplace, hitem⟩
  · unfold write
    rw [hplace]
    rfl
  · unfold write
    rw [hplace]
    exact if_neg fun hd => hitem (isDirectory_iff.1 hd)

/-- **A file is put at the end of a free way.** The directories on the way are made first, as many
of them as are not there. -/
theorem attemptFile_of_free {parent : Location} {name : String}
    (hnames : HasNames (parent ++ [name])) (hfree : ¬Contents.IsBlocked t.item? (parent ++ [name]))
    (hitem : t.item? (parent ++ [name]) ≠ some .directory)
    (hflaw : (⟨.root, parent ++ [name]⟩ : Path).flaw? = none) (bytes : ByteArray) :
    ∃ t' : FileTree, t.attemptFile [] ⟨.root, parent ++ [name]⟩ bytes = ⟨t', none⟩ ∧
      t'.item? = Function.update (Contents.paved t.item? parent) (parent ++ [name])
        (some (.file bytes)) := by
  obtain ⟨hparent, hname, hshort⟩ := hasNames_concat.1 hnames
  have hflaw' := Path.flaw?_onWay (List.prefix_append parent [name]) hflaw
  obtain ⟨t₁, ht₁, hrun⟩ := makeAlong_root h hparent
    (fun l b hl hfile => hfree (Contents.isBlocked_concat.2 ⟨l, b, hl, hfile⟩)) hflaw'
  have hmade : t.attemptDirectories [] (⟨.root, parent ++ [name]⟩ : Path).parent =
      ⟨t₁, none⟩ := by
    rw [parent_concat]
    unfold attemptDirectories
    rw [hflaw']
    have hall := hrun []
    rwa [List.append_nil] at hall
  have hsimple : Contents.IsSimple t₁.item? := ht₁ ▸ h.paved _
  have hdirectory : t₁.item? parent = some .directory := by
    rw [ht₁]
    exact Contents.paved_onWay _ List.prefix_rfl
  -- The location is not on the way to its parent, so that nothing has changed there.
  have hsame : t₁.item? (parent ++ [name]) = t.item? (parent ++ [name]) := by
    rw [ht₁]
    refine Contents.paved_offWay _ fun hp => ?_
    have hlength := hp.length_le
    rw [List.length_append, List.length_singleton] at hlength
    omega
  have hplace : t₁.place [] ⟨.root, parent ++ [name]⟩ = .ok (.vacant (parent ++ [name])) ∨
      t₁.place [] ⟨.root, parent ++ [name]⟩ = .ok (.taken (parent ++ [name])) ∧
        t₁.item? (parent ++ [name]) ≠ some .directory := by
    by_cases hnone : t₁.item? (parent ++ [name]) = none
    · exact .inl (place_vacant hsimple hparent hdirectory hname hflaw hshort hnone)
    · exact .inr ⟨place_taken hsimple hnames hnone hflaw, hsame ▸ hitem⟩
  obtain ⟨t₂, hwrite, ht₂⟩ := write_eq_ok (by simp) hplace bytes
  refine ⟨t₂, ?_, by rw [ht₂, ht₁]⟩
  unfold attemptFile
  simp only [hmade, hwrite]

/-- Nothing changes when a file stands on the way. -/
theorem attemptFile_of_blocked {parent : Location} {name : String} {above : Location}
    {old : ByteArray} (habove : above <+: parent) (hfile : t.item? above = some (.file old))
    (hnames : HasNames above) (hflaw : (⟨.root, parent ++ [name]⟩ : Path).flaw? = none)
    (bytes : ByteArray) :
    ∃ (t' : FileTree) (e : PathError),
      t.attemptFile [] ⟨.root, parent ++ [name]⟩ bytes = ⟨t', some e⟩ ∧ t'.item? = t.item? := by
  obtain ⟨rest, rfl⟩ := habove
  have hflaw' := Path.flaw?_onWay (List.prefix_append (above ++ rest) [name]) hflaw
  rcases List.eq_nil_or_concat above with rfl | ⟨front, last, rfl⟩
  · rw [h.root] at hfile
    exact absurd hfile (by simp)
  · rw [List.concat_eq_append] at *
    obtain ⟨hfront, hlast, hshort⟩ := hasNames_concat.1 hnames
    have hdirectory : t.item? front = some .directory :=
      h.grounded front last (by rw [hfile]; exact Option.some_ne_none _)
    have hsplit : front ++ [last] ++ rest = front ++ last :: rest := by simp
    have hflaw₁ := Path.flaw?_onWay (List.prefix_append (front ++ [last]) rest) hflaw'
    obtain ⟨t₁, ht₁, hrun⟩ := makeAlong_root h hfront
      (fun l b hl hb => by
        by_cases hne : l = front
        · rw [hne, hdirectory] at hb
          exact absurd hb (by simp)
        · rw [h.directory_onWay hl hne (item?_ne_none_of_directory hdirectory)] at hb
          exact absurd hb (by simp))
      (Path.flaw?_onWay (List.prefix_append front [last]) hflaw₁)
    have hsame : t₁.item? = t.item? := by rw [ht₁, h.paved_of_directory hdirectory]
    have hsimple : Contents.IsSimple t₁.item? := hsame ▸ h
    -- No directory can be made where the file stands.
    have hstop : ∀ onWay, ∃ e,
        t₁.makeDirectory [] onWay ⟨.root, front ++ [last]⟩ = .error e :=
      makeDirectory_file hsimple hfront hlast hflaw₁ hshort (hsame ▸ hfile)
    obtain ⟨e, hmade⟩ := attemptDirectories_stop (hsplit ▸ hflaw') hrun hstop
    exact ⟨t₁, e, attemptFile_of_error (hsplit ▸ hmade) bytes, hsame⟩

/-- **The way is paved up to a name that is too long.** The directories before that name have been
made by then, and they stay, though the file is not written. -/
theorem attemptFile_of_long {above rest : Location} {name : String} (hnames : HasNames above)
    (hname : IsName name) (hlong : ¬IsShort name)
    (hfree : ¬Contents.IsBlocked t.item? (above ++ [name]))
    (hflaw : (⟨.root, above ++ name :: rest⟩ : Path).flaw? = none) (bytes : ByteArray) :
    ∃ (t' : FileTree) (e : PathError),
      t.attemptFile [] ⟨.root, above ++ name :: rest⟩ bytes = ⟨t', some e⟩ ∧
        t'.item? = Contents.paved t.item? above := by
  have hstep : (⟨.root, above ++ [name]⟩ : Path).flaw? = none := by
    refine Path.flaw?_onWay ?_ hflaw
    rw [List.prefix_append_right_inj, List.cons_prefix_cons]
    exact ⟨rfl, List.nil_prefix⟩
  have hflaw' := Path.flaw?_onWay (List.prefix_append above [name]) hstep
  obtain ⟨t₁, ht₁, hrun⟩ := makeAlong_root h hnames
    (fun l b hl hfile => hfree (Contents.isBlocked_concat.2 ⟨l, b, hl, hfile⟩)) hflaw'
  have hsimple : Contents.IsSimple t₁.item? := ht₁ ▸ h.paved _
  have hdirectory : t₁.item? above = some .directory := by
    rw [ht₁]
    exact Contents.paved_onWay _ List.prefix_rfl
  rcases List.eq_nil_or_concat rest with rfl | ⟨middle, last, rfl⟩
  · -- The name is that of the file: all directories are made, and the file is not.
    have hmade : t.attemptDirectories [] ⟨.root, above⟩ = ⟨t₁, none⟩ := by
      unfold attemptDirectories
      rw [hflaw']
      have hall := hrun []
      rwa [List.append_nil] at hall
    have hwrite : t₁.write [] ⟨.root, above ++ [name]⟩ bytes = .error .nameTooLong := by
      unfold write
      rw [place_long hsimple hnames hdirectory hname hstep hlong]
      rfl
    refine ⟨t₁, .nameTooLong, ?_, ht₁⟩
    unfold attemptFile
    simp only [parent_concat, hmade, hwrite]
  · have hsplit : above ++ name :: middle.concat last = above ++ name :: middle ++ [last] := by
      simp
    rw [hsplit] at hflaw ⊢
    obtain ⟨e, hmade⟩ := attemptDirectories_stop
      (Path.flaw?_onWay (List.prefix_append _ [last]) hflaw) hrun
      (makeDirectory_long hsimple hnames hdirectory hname hstep hlong)
    exact ⟨t₁, e, attemptFile_of_error hmade bytes, ht₁⟩

end Simple

end FormScaffold.FileTree
