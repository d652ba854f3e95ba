import FormScaffold.Metadata.Dumps
import FormScaffold.Proofs.Files.Resolving
import FormScaffold.Proofs.Naming
import FormScaffold.Proofs.Traversal

/-! # Where dumps are looked for

The name of an entity is part of the paths where its dump is looked for, slashes and steps upward
included. A dump stays in the directory when nothing in the name leads elsewhere.

* `Path.ofText_append` — the path of a text by its last slash;
* **`Dumps.IsLocal`** — no step comes before the last slash of the name, and the name does not start
  at the root;
* `Dumps.Opens` — the file that is read for an entity;
* **`isLocal_iff_isEntry`** — just the local names are looked for in the directory itself, and what
  is opened for them stands there. -/

namespace FormScaffold

/-! ## Paths by their last slash -/

namespace Path

/-- A text up to its last slash. -/
def upToSlash (cs : List Char) : List Char := (cs.reverse.dropWhile (· != '/')).reverse

/-- What follows the last slash of a text. -/
def afterSlash (cs : List Char) : List Char := (cs.reverse.takeWhile (· != '/')).reverse

/-- The text has no end after its last slash. -/
def EndsInSlash (cs : List Char) : Prop := cs = [] ∨ ∃ ds, cs = ds ++ ['/']

/-- A text is what it is up to its last slash, and what follows. -/
theorem upToSlash_append_afterSlash (cs : List Char) : upToSlash cs ++ afterSlash cs = cs := by
  rw [upToSlash, afterSlash, ← List.reverse_append, List.takeWhile_append_dropWhile,
    List.reverse_reverse]

/-- What follows the last slash has no slash in it. -/
theorem slash_notMem_afterSlash (cs : List Char) : '/' ∉ afterSlash cs := by
  intro h
  have hne := List.mem_takeWhile_imp (List.mem_reverse.1 h)
  exact absurd hne (by decide)

/-- What stands up to the last slash ends in a slash, if there is one. -/
theorem endsInSlash_upToSlash (cs : List Char) : EndsInSlash (upToSlash cs) := by
  unfold upToSlash
  cases hrest : cs.reverse.dropWhile (· != '/') with
  | nil => exact .inl rfl
  | cons c rest =>
    have hfirst : c ∈ (cs.reverse.dropWhile (· != '/')).head? := by
      rw [hrest]
      rfl
    have hhead := Text.not_of_mem_head?_dropWhile hfirst
    obtain rfl : c = '/' := by simpa using hhead
    exact .inr ⟨rest.reverse, by rw [List.reverse_cons]⟩

/-- A text that ends in a slash is cut apart from what follows. -/
theorem upToSlash_append {front tail : List Char} (hfront : EndsInSlash front)
    (htail : '/' ∉ tail) : upToSlash (front ++ tail) = front := by
  have hall : ∀ c ∈ tail.reverse, (c != '/') = true := by
    intro c hc
    rw [bne_iff_ne]
    rintro rfl
    exact htail (List.mem_reverse.1 hc)
  have hstop : front.reverse.dropWhile (· != '/') = front.reverse := by
    rcases hfront with rfl | ⟨ds, rfl⟩
    · rfl
    · rw [List.reverse_append]
      rfl
  rw [upToSlash, List.reverse_append, List.dropWhile_append_of_pos hall, hstop,
    List.reverse_reverse]

/-- A last step is added to the path of the text in front of it. -/
theorem ofText_append {front tail : List Char} (hfront : EndsInSlash front) (htail : '/' ∉ tail)
    (hstep : isStep (String.ofList tail) = true) :
    ofText (String.ofList (front ++ tail)) =
      ⟨(ofText (String.ofList front)).anchor,
        (ofText (String.ofList front)).steps ++ [String.ofList tail]⟩ := by
  have hslash : ∀ c ∈ tail, (c == '/') = false := by
    intro c hc
    rw [beq_eq_false_iff_ne]
    rintro rfl
    exact htail hc
  have hsplit : tail.splitOn '/' = [tail] := List.splitOnP_eq_singleton hslash
  have hnone : tail.takeWhile (· == '/') = [] := by
    cases tail with
    | nil => rfl
    | cons c tail => rw [List.takeWhile_cons_of_neg (by simp [hslash c List.mem_cons_self])]
  have hanchor : anchorOf (front ++ tail) = anchorOf front := by
    have htake : (front ++ tail).takeWhile (· == '/') = front.takeWhile (· == '/') := by
      rw [List.takeWhile_append, hnone, List.append_nil]
      split
      · rename_i hall
        exact ((List.takeWhile_prefix _).eq_of_length hall).symm
      · rfl
    rw [anchorOf, htake, ← anchorOf]
  have hpieces : ∀ cs : List Char,
      pieces (String.ofList cs) = (cs.splitOn '/').map String.ofList := fun cs => by
    rw [pieces, String.toList_ofList]
  have hempty : isStep "" = false := rfl
  -- The last slash of the front is where the pieces are cut apart.
  have hsteps : (pieces (String.ofList (front ++ tail))).filter isStep =
      (pieces (String.ofList front)).filter isStep ++ [String.ofList tail] := by
    rw [hpieces, hpieces]
    rcases hfront with rfl | ⟨ds, rfl⟩
    · rw [List.nil_append, hsplit]
      simp [hstep, hempty]
    · have hcut : ∀ cs : List Char, (ds ++ '/' :: cs).splitOn '/' =
          ds.splitOn '/' ++ cs.splitOn '/' := fun cs =>
        List.splitOnP_append_cons ds cs (by decide)
      rw [List.append_assoc, List.singleton_append, hcut, hcut, hsplit]
      simp [hstep, hempty]
  rw [ofText, ofText, String.toList_ofList, String.toList_ofList, hanchor, hsteps]

/-- A text without steps consists of points and slashes. -/
theorem eq_slash_or_point_of_steps {cs : List Char} (h : (ofText (String.ofList cs)).steps = []) :
    ∀ c ∈ cs, c = '/' ∨ c = '.' := by
  intro c hc
  rw [← @List.intercalate_splitOn _ cs _ _ '/'] at hc
  rcases Text.mem_intercalate hc with hc | ⟨part, hpart, hc⟩
  · exact .inl (List.mem_singleton.1 hc)
  · have hmem : String.ofList part ∈ pieces (String.ofList cs) := by
      rw [pieces, String.toList_ofList]
      exact List.mem_map_of_mem hpart
    have hnone : isStep (String.ofList part) = false :=
      Bool.not_eq_true _ ▸ List.filter_eq_nil_iff.1 h _ hmem
    have hpiece : part = [] ∨ part = ['.'] := by
      simpa [isStep, ← String.toList_inj, or_iff_not_imp_left] using hnone
    rcases hpiece with rfl | rfl
    · exact absurd hc List.not_mem_nil
    · exact .inr (List.mem_singleton.1 hc)

end Path

/-! ## Small letters -/

namespace Text

/-- Only one code point is the slash. -/
theorem ofNat_ne_slash {n : Nat} (h : n ≠ 0x2F) : Char.ofNat n ≠ '/' := by
  intro heq
  by_cases hvalid : n.isValidChar
  · have hcode : (Char.ofNat n).toNat = n := by
      rw [Char.ofNat, dif_pos hvalid]
      rfl
    rw [heq] at hcode
    exact h hcode.symm
  · rw [Char.ofNat, dif_neg hvalid] at heq
    exact absurd heq (by decide)

/-- No letter of ASCII made small is a slash. -/
theorem toLower_ne_slash {c : Char} (h : c ≠ '/') : c.toLower ≠ '/' := by
  rw [Ne, ← Char.toNat_inj] at h ⊢
  unfold Char.toLower
  split
  · rename_i hc
    simp only [UInt32.le_iff_toNat_le, Char.reduceVal, UInt32.reduceToNat, ← Char.toNat_val,
      UInt32.reduceSub, UInt32.toNat_add] at hc h ⊢
    omega
  · exact h

/-- No letter of another script made small is a slash. -/
theorem shiftCase_ne_slash {c : Char} (h : c ≠ '/') : shiftCase toLowerShifts c ≠ '/' := by
  -- Every run is moved to places behind the slash.
  have hruns : (toLowerShifts.all fun r => decide (0x2F < (r.first : Int) + r.shift)) = true := by
    decide +kernel
  unfold shiftCase
  split
  · rename_i r hr
    have hhas := List.find?_some hr
    have hrun := List.all_eq_true.1 hruns r (List.mem_of_find?_eq_some hr)
    simp only [CaseShift.has, Bool.and_eq_true, decide_eq_true_eq] at hhas hrun
    refine ofNat_ne_slash ?_
    omega
  · exact h

/-- No slash comes from another character. -/
theorem slash_notMem_lowerChar {c : Char} (h : c ≠ '/') (before after : List Char) :
    '/' ∉ lowerChar before c after := by
  unfold lowerChar
  split
  · simpa using (toLower_ne_slash h).symm
  split
  · split <;> decide
  split
  · decide
  · simpa using (shiftCase_ne_slash h).symm

/-- Making a text small puts no slash into it. -/
theorem slash_notMem_lowerFrom {cs : List Char} (h : '/' ∉ cs) (before : List Char) :
    '/' ∉ lowerFrom before cs := by
  induction cs generalizing before with
  | nil => simp [lowerFrom]
  | cons c cs ih =>
    obtain ⟨hc, hcs⟩ := List.ne_and_not_mem_of_not_mem_cons h
    rw [lowerFrom, List.mem_append]
    exact not_or_intro (slash_notMem_lowerChar (Ne.symm hc) _ _) (ih hcs _)

/-- Points and slashes have no small letters. -/
theorem lowerFrom_append {cs : List Char} (h : ∀ c ∈ cs, c = '/' ∨ c = '.')
    (before ds : List Char) :
    lowerFrom before (cs ++ ds) = cs ++ lowerFrom (cs.reverse ++ before) ds := by
  induction cs generalizing before with
  | nil => rfl
  | cons c cs ih =>
    obtain ⟨hc, hcs⟩ := List.forall_mem_cons.1 h
    have hchar : ∀ after, lowerChar before c after = [c] := by
      intro after
      rcases hc with rfl | rfl <;> rfl
    rw [List.cons_append, lowerFrom, hchar, ih hcs]
    simp

end Text

namespace Dumps

/-! ## Local names -/

/-- **The name leads nowhere before its last slash**: neither to the root nor to another
directory. -/
def IsLocal (entity : String) : Prop :=
  Path.ofText (String.ofList (Path.upToSlash entity.toList)) = ⟨.here, []⟩

instance (entity : String) : Decidable (IsLocal entity) := inferInstanceAs (Decidable (_ = _))

/-- A name without slashes is local. -/
theorem isLocal_of_slash_notMem {entity : String} (h : '/' ∉ entity.toList) : IsLocal entity := by
  have hfront : Path.upToSlash entity.toList = [] :=
    @Path.upToSlash_append [] _ (.inl rfl) h
  rw [IsLocal, hfront]
  rfl

/-- **Every slug is local**: it has neither slashes nor points in it. So whatever an entity is
called, the dump that is looked for under its slug is one of the directory. -/
theorem isLocal_slug (entity : String) : IsLocal (Naming.slug entity) := by
  refine isLocal_of_slash_notMem fun h => ?_
  rcases Naming.mem_slug h with h | h
  · exact absurd h (by decide)
  · exact absurd h (by decide)

/-- The name in small letters with underscores. -/
theorem isLocal_underscored {entity : String} (h : IsLocal entity) :
    IsLocal (String.ofList
      (Text.lower (entity.toList.map fun c => if c == ' ' then '_' else c))) := by
  have hfront := Path.eq_slash_or_point_of_steps (congrArg Path.steps h)
  have hmap : (Path.upToSlash entity.toList).map (fun c => if c == ' ' then '_' else c) =
      Path.upToSlash entity.toList := by
    refine (List.map_congr_left fun c hc => ?_).trans (List.map_id _)
    rcases hfront c hc with rfl | rfl <;> rfl
  have hrear : '/' ∉ (Path.afterSlash entity.toList).map fun c => if c == ' ' then '_' else c := by
    intro hmem
    obtain ⟨c, hc, hslash⟩ := List.mem_map.1 hmem
    split at hslash
    · exact absurd hslash (by decide)
    · exact Path.slash_notMem_afterSlash _ (hslash ▸ hc)
  -- What comes before the last slash stays as it is, and no slash is added behind it.
  rw [IsLocal, ← Path.upToSlash_append_afterSlash entity.toList, List.map_append, hmap, Text.lower,
    Text.lowerFrom_append hfront, String.toList_ofList,
    Path.upToSlash_append (Path.endsInSlash_upToSlash _) (Text.slash_notMem_lowerFrom hrear _)]
  exact h

/-- A local name has local stems only: the name, the name made small, and its slug. -/
theorem isLocal_of_mem_stems {entity stem : String} (h : IsLocal entity)
    (hstem : stem ∈ stems entity) : IsLocal stem := by
  simp only [stems, List.mem_cons, List.not_mem_nil, or_false] at hstem
  rcases hstem with rfl | rfl | rfl
  · exact isLocal_slug entity
  · exact h
  · exact isLocal_underscored h

/-! ## Where dumps are looked for -/

/-- The path is that of one name in the directory. -/
def IsEntry (d : Dumps) (p : Path) : Prop :=
  ∃ name, IsName name ∧ '/' ∉ name.toList ∧
    p = ⟨d.directory.anchor, d.directory.steps ++ [name]⟩

/-- The paths where a dump is looked for: each stem with each suffix, in the directory. -/
theorem mem_candidates {d : Dumps} {entity : String} {p : Path} :
    p ∈ d.candidates entity ↔
      ∃ stem ∈ stems entity, ∃ suffix ∈ suffixes, d.directory.join (stem ++ suffix) = p := by
  simp only [candidates, List.mem_flatMap, List.mem_map]

/-- What follows the last slash of the name of a dump. -/
theorem afterSlash_suffix (stem : String) {suffix : String} (h : suffix ∈ suffixes) :
    '/' ∉ Path.afterSlash stem.toList ++ suffix.toList ∧
      3 < (Path.afterSlash stem.toList ++ suffix.toList).length := by
  have hsuffix : '/' ∉ suffix.toList ∧ 3 < suffix.toList.length := by
    have hall : ∀ s ∈ suffixes, '/' ∉ s.toList ∧ 3 < s.toList.length := by decide
    exact hall suffix h
  refine ⟨List.not_mem_append (Path.slash_notMem_afterSlash _) hsuffix.1, ?_⟩
  rw [List.length_append]
  exact Nat.lt_add_left _ hsuffix.2

/-- A long name stands for itself. -/
theorem isName_of_length {cs : List Char} (h : 3 < cs.length) :
    IsName (String.ofList cs) ∧ Path.isStep (String.ofList cs) = true := by
  have hne : ∀ s : String, s.toList.length ≤ 3 → String.ofList cs ≠ s := by
    rintro s hs rfl
    rw [String.toList_ofList] at hs
    exact absurd h (Nat.not_lt.2 hs)
  have hempty := hne "" (by decide)
  have hpoint := hne "." (by decide)
  have hstep : Path.isStep (String.ofList cs) = true := by simp [Path.isStep, hempty, hpoint]
  exact ⟨⟨hstep, hne ".." (by decide)⟩, hstep⟩

/-- The path that the name of a dump writes. -/
theorem ofText_suffix (stem : String) {suffix : String} (h : suffix ∈ suffixes) :
    Path.ofText (stem ++ suffix) =
      ⟨(Path.ofText (String.ofList (Path.upToSlash stem.toList))).anchor,
        (Path.ofText (String.ofList (Path.upToSlash stem.toList))).steps ++
          [String.ofList (Path.afterSlash stem.toList ++ suffix.toList)]⟩ := by
  obtain ⟨hslash, hlength⟩ := afterSlash_suffix stem h
  have htext : stem ++ suffix = String.ofList (Path.upToSlash stem.toList ++
      (Path.afterSlash stem.toList ++ suffix.toList)) := by
    rw [← List.append_assoc, Path.upToSlash_append_afterSlash, ← String.toList_append,
      String.ofList_toList]
  rw [htext, Path.ofText_append (Path.endsInSlash_upToSlash _) hslash (isName_of_length hlength).2]

/-- The dump of a local name is looked for in the directory. -/
theorem isEntry_of_isLocal (d : Dumps) {stem suffix : String} (h : IsLocal stem)
    (hsuffix : suffix ∈ suffixes) : d.IsEntry (d.directory.join (stem ++ suffix)) := by
  obtain ⟨hslash, hlength⟩ := afterSlash_suffix stem hsuffix
  refine ⟨_, (isName_of_length hlength).1, by rwa [String.toList_ofList], ?_⟩
  rw [Path.join, ofText_suffix stem hsuffix, h]
  rfl

/-- **Just the local names are looked for in the directory itself.** For a name that is not local it
is the path of the name itself that leads elsewhere. -/
theorem isLocal_iff_candidates (entity : String) :
    IsLocal entity ↔ ∀ d : Dumps, ∀ p ∈ d.candidates entity, d.IsEntry p := by
  constructor
  · intro h d p hp
    obtain ⟨stem, hstem, suffix, hsuffix, rfl⟩ := mem_candidates.1 hp
    exact isEntry_of_isLocal d (isLocal_of_mem_stems h hstem) hsuffix
  · intro h
    -- Seen from here, the path of a dump is the path that its name writes.
    have hmem : ".json" ∈ suffixes := by decide
    obtain ⟨name, -, -, hp⟩ := h ⟨.empty, [], ⟨.here, []⟩⟩ _
      (mem_candidates.2 ⟨entity, by simp [stems], ".json", hmem, rfl⟩)
    rw [Path.join, ofText_suffix entity hmem] at hp
    rw [IsLocal]
    generalize Path.ofText (String.ofList (Path.upToSlash entity.toList)) = q at hp ⊢
    obtain ⟨anchor, steps⟩ := q
    by_cases hanchor : anchor = .here
    · subst hanchor
      have hlength := congrArg (fun p : Path => p.steps.length) hp
      obtain rfl : steps = [] := by simpa using hlength
      rfl
    · simp only [beq_eq_false_iff_ne.2 hanchor, Bool.false_eq_true, if_false] at hp
      exact absurd (Path.mk.inj hp).1 hanchor

/-! ## What is opened -/

/-- **The file that is read** for an entity, by its path. -/
structure Opens (d : Dumps) (entity : String) (p : Path) (bytes : ByteArray) : Prop where
  named : entity ≠ ""
  directory : d.itemAt d.directory = .ok (some .directory)
  first : d.firstFile (d.candidates entity) = .ok (some (p, bytes))

/-- A file that is found stands where one of the paths leads. -/
theorem mem_of_firstFile {d : Dumps} {ps : List Path} {p : Path} {bytes : ByteArray}
    (h : d.firstFile ps = .ok (some (p, bytes))) :
    p ∈ ps ∧ d.itemAt p = .ok (some (.file bytes)) := by
  induction ps with
  | nil => exact absurd h (by simp [firstFile])
  | cons q qs ih =>
    have hlater (hqs : d.firstFile qs = .ok (some (p, bytes))) :
        p ∈ q :: qs ∧ d.itemAt p = .ok (some (.file bytes)) :=
      ⟨List.mem_cons_of_mem q (ih hqs).1, (ih hqs).2⟩
    rw [firstFile] at h
    obtain ⟨item, hitem, h⟩ := bind_eq_ok.1 h
    split at h
    · obtain ⟨rfl, rfl⟩ := Prod.mk.inj (Option.some.inj (Except.ok.inj h))
      exact ⟨List.mem_cons_self, hitem⟩
    · exact hlater h

/-- Something is found at a path just when the path leads to it. -/
theorem itemAt_eq_some {d : Dumps} {p : Path} {item : Item} :
    d.itemAt p = .ok (some item) ↔ ∃ loc, d.tree.find d.current p = .ok (loc, item) := by
  unfold itemAt
  split
  · rename_i found hfound
    simp [hfound, Prod.ext_iff]
  · rename_i hfound
    simp [hfound]
  · rename_i e _ hfound
    simp [hfound]

/-- **What is opened for a path of the directory stands in the directory itself**, or a link
stands there. -/
theorem item?_of_isEntry {d : Dumps} {p : Path} {bytes : ByteArray} (hentry : d.IsEntry p)
    (hdirectory : d.itemAt d.directory = .ok (some .directory))
    (hfile : d.itemAt p = .ok (some (.file bytes))) :
    ∃ loc name, d.tree.find d.current d.directory = .ok (loc, .directory) ∧
      p = ⟨d.directory.anchor, d.directory.steps ++ [name]⟩ ∧
      (d.tree.item? (loc ++ [name]) = some (.file bytes) ∨
        ∃ target, d.tree.item? (loc ++ [name]) = some (.link target)) := by
  obtain ⟨name, hname, -, rfl⟩ := hentry
  obtain ⟨loc, hloc⟩ := itemAt_eq_some.1 hdirectory
  obtain ⟨loc', hloc'⟩ := itemAt_eq_some.1 hfile
  refine ⟨loc, name, hloc, rfl, ?_⟩
  obtain ⟨-, hwalk, hitem⟩ := FileTree.find_eq_ok.1 hloc
  obtain ⟨-, hwalk', hitem'⟩ := FileTree.find_eq_ok.1 hloc'
  -- The way to the file is the way to the directory and one step more.
  obtain ⟨links, hrest⟩ := FileTree.exists_walk_append hwalk
  replace hwalk' : d.tree.walk links loc [name] = .ok (.taken loc') :=
    (hrest [name]).symm.trans hwalk'
  obtain ⟨-, hshort⟩ := FileTree.directory_of_walk hname hwalk'
  by_cases hlink : ∃ target, d.tree.item? (loc ++ [name]) = some (.link target)
  · exact .inr hlink
  · have hne : d.tree.item? (loc ++ [name]) ≠ none := by
      intro hnone
      rw [FileTree.walk_vacant hitem hname hshort hnone] at hwalk'
      exact absurd hwalk' (by simp)
    rw [FileTree.walk_taken hitem hname hshort hne (not_exists.1 hlink),
      FileTree.walk_nil] at hwalk'
    obtain rfl := Place.taken.inj (Except.ok.inj hwalk')
    exact .inl hitem'

/-- **A dump stays in its directory just for local names.** Every path where the dump of a local
name is looked for is one of the directory, and only local names have none that leads elsewhere. The
file that is opened for a local name stands in the directory itself, links aside. -/
theorem isLocal_iff_isEntry (entity : String) :
    (IsLocal entity ↔ ∀ d : Dumps, ∀ p ∈ d.candidates entity, d.IsEntry p) ∧
      (IsLocal entity → ∀ (d : Dumps) (p : Path) (bytes : ByteArray), d.Opens entity p bytes →
        ∃ loc name, d.tree.find d.current d.directory = .ok (loc, .directory) ∧
          p = ⟨d.directory.anchor, d.directory.steps ++ [name]⟩ ∧
          (d.tree.item? (loc ++ [name]) = some (.file bytes) ∨
            ∃ target, d.tree.item? (loc ++ [name]) = some (.link target))) := by
  refine ⟨isLocal_iff_candidates entity, fun h d p bytes hopens => ?_⟩
  obtain ⟨hmem, hfile⟩ := mem_of_firstFile hopens.first
  exact item?_of_isEntry ((isLocal_iff_candidates entity).1 h d p hmem) hopens.directory hfile

/-- Paths that lead nowhere are passed over. -/
theorem firstFile_append {d : Dumps} {ps : List Path} (h : ∀ p ∈ ps, d.itemAt p = .ok none)
    (qs : List Path) : d.firstFile (ps ++ qs) = d.firstFile qs := by
  induction ps with
  | nil => rfl
  | cons p ps ih =>
    obtain ⟨hp, hps⟩ := List.forall_mem_cons.1 h
    rw [List.cons_append, firstFile, hp]
    exact ih hps

/-- Nothing is found where a path without flaw leads to a vacant place. -/
theorem itemAt_of_vacant {d : Dumps} {p : Path} (loc : Location) (hflaw : p.flaw? = none)
    (hwalk : d.tree.walk maxLinks (p.start d.current) p.steps = .ok (.vacant loc)) :
    d.itemAt p = .ok none := by
  simp [itemAt, FileTree.find, FileTree.place, hflaw, hwalk, bind, Except.bind]

/-- A directory of dumps, and a file beside the directory. -/
def besideDumps : Dumps :=
  ⟨⟨[(["dumps"], .directory), (["secret.json"], .file .empty)]⟩, [], ⟨.here, ["dumps"]⟩⟩

/-- A step upward in the name leads out of the directory; a name without slashes does not. -/
theorem isLocal_iff_isEntry_secret :
    besideDumps.Opens "../secret" ⟨.here, ["dumps", "..", "secret.json"]⟩ .empty ∧
      ¬besideDumps.IsEntry ⟨.here, ["dumps", "..", "secret.json"]⟩ ∧ ¬IsLocal "../secret" ∧
      IsLocal "Sales Order" ∧ ∀ d : Dumps, ∀ p ∈ d.candidates "Sales Order", d.IsEntry p := by
  have hdumps : besideDumps.tree.item? ["dumps"] = some .directory := rfl
  have hdown (rest : List String) : besideDumps.tree.walk maxLinks [] ("dumps" :: rest) =
      besideDumps.tree.walk maxLinks ["dumps"] rest :=
    FileTree.walk_taken (FileTree.item?_nil _) (by decide) (by decide +kernel)
      (hdumps ▸ Option.some_ne_none _) (fun _ => hdumps ▸ by simp) _ _
  have hslug : ∀ p ∈ suffixes.map fun suffix => besideDumps.directory.join ("secret" ++ suffix),
      besideDumps.itemAt p = .ok none := by
    have hpaths : (suffixes.map fun suffix => besideDumps.directory.join ("secret" ++ suffix)) =
        [⟨.here, ["dumps", "secret.json"]⟩, ⟨.here, ["dumps", "secret.yaml"]⟩,
          ⟨.here, ["dumps", "secret.yml"]⟩] := by decide +kernel
    have hvacant (name : String) (hname : IsName name) (hshort : IsShort name)
        (hflaw : (⟨.here, ["dumps", name]⟩ : Path).flaw? = none) :
        besideDumps.itemAt ⟨.here, ["dumps", name]⟩ = .ok none :=
      itemAt_of_vacant ["dumps", name] hflaw
        ((hdown [name]).trans (FileTree.walk_vacant hdumps hname hshort rfl _ _))
    rw [hpaths, List.forall_mem_cons, List.forall_mem_cons, List.forall_mem_singleton]
    exact ⟨hvacant _ (by decide) (by decide +kernel) (by decide +kernel),
      hvacant _ (by decide) (by decide +kernel) (by decide +kernel),
      hvacant _ (by decide) (by decide +kernel) (by decide +kernel)⟩
  have hdirectory : besideDumps.itemAt besideDumps.directory = .ok (some .directory) :=
    itemAt_eq_some.2 ⟨["dumps"], FileTree.find_eq_ok.2 ⟨by decide +kernel,
      (hdown []).trans (FileTree.walk_nil _ _), hdumps⟩⟩
  have hsecret : besideDumps.tree.item? ["secret.json"] = some (.file .empty) := rfl
  have hup : besideDumps.tree.walk maxLinks ["dumps"] ["..", "secret.json"] =
      .ok (.taken ["secret.json"]) := by
    rw [FileTree.walk_up hdumps]
    exact (FileTree.walk_taken (FileTree.item?_nil _) (by decide) (by decide +kernel)
      (hsecret ▸ Option.some_ne_none _) (fun _ => hsecret ▸ by simp) _ _).trans
      (FileTree.walk_nil _ _)
  have hfile : besideDumps.itemAt ⟨.here, ["dumps", "..", "secret.json"]⟩ =
      .ok (some (.file .empty)) :=
    itemAt_eq_some.2 ⟨["secret.json"], FileTree.find_eq_ok.2 ⟨by decide +kernel,
      (hdown _).trans hup, hsecret⟩⟩
  have hlocal : IsLocal "Sales Order" := by decide +kernel
  refine ⟨⟨by decide, hdirectory, ?_⟩, ?_, by decide +kernel, hlocal,
    (isLocal_iff_isEntry "Sales Order").1.1 hlocal⟩
  · have hname : Naming.slug "../secret" = "secret" := by decide +kernel
    have hjoin : besideDumps.directory.join ("../secret" ++ ".json") =
        ⟨.here, ["dumps", "..", "secret.json"]⟩ := by decide +kernel
    rw [candidates, stems, hname, List.flatMap_cons, firstFile_append hslug, List.flatMap_cons,
      suffixes, List.map_cons, hjoin, List.cons_append, firstFile, hfile]
    rfl
  · rintro ⟨name, -, -, hp⟩
    have hlength := congrArg (fun p : Path => p.steps.length) hp
    exact absurd hlength (by simp [besideDumps])

end Dumps

end FormScaffold
