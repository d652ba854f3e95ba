import FormScaffold.Files.Change
import FormScaffold.Proofs.Files.Walking
import Mathlib.Data.List.Perm.Subperm

/-! # Resolved locations

A path is resolved to a location with no link on the way, unless it runs into a link that leads back
to itself. Such a link is never left: nothing is found behind it, and nothing can be put there. What
is still to be resolved is then joined to the link as it is written, and leads away from it where it
has steps upward or starts anew.

* **`IsReal`** — no link stands at a location or on the way to it;
* `resolveSteps_congr` — what a path is resolved to depends on the links alone;
* **`isReal_of_resolveSteps`**, **`exists_fails_of_stuck`** — the two ends of resolving;
* **`isReal_or_isDeadEnd_of_resolve`**, `isName_of_resolve` — what a path is resolved to;
* **`Within`** — what a change may touch, and what it may pave;
* **`within_attemptFile`**, `IsDeadEnd.within_attemptFile` — putting a file at a real location
  touches this location, and paves the way to it; at a dead end it may pave a part of the way. -/

namespace FormScaffold.FileTree

variable {t t' : FileTree}

/-! ## Locations without links -/

/-- No link stands at the location or on the way to it, and its names stand for themselves. -/
structure IsReal (t : FileTree) (loc : Location) : Prop where
  names : ∀ name ∈ loc, IsName name
  linkless : ∀ l target, l <+: loc → t.item? l ≠ some (.link target)

/-- The root is real. -/
theorem isReal_nil (t : FileTree) : t.IsReal [] := by
  refine ⟨by simp, fun l target hl => ?_⟩
  rw [List.prefix_nil.1 hl, item?_nil]
  simp

/-- What is on the way to a real location is real. -/
theorem IsReal.mono {l loc : Location} (h : t.IsReal loc) (hl : l <+: loc) : t.IsReal l :=
  ⟨fun name hname => h.names name (hl.subset hname), fun m target hm =>
    h.linkless m target (hm.trans hl)⟩

/-- One name more leads to a real location when no link stands there. -/
theorem IsReal.concat {loc : Location} {name : String} (h : t.IsReal loc) (hname : IsName name)
    (hlink : ∀ target, t.item? (loc ++ [name]) ≠ some (.link target)) :
    t.IsReal (loc ++ [name]) := by
  refine ⟨?_, fun l target hl => ?_⟩
  · simpa [or_imp, forall_and] using ⟨h.names, hname⟩
  · rcases List.prefix_concat_iff.1 hl with rfl | hl
    · exact hlink target
    · exact h.linkless l target hl

/-- The same links stand in both trees. -/
def SameLinks (t t' : FileTree) : Prop :=
  ∀ l target, t'.item? l = some (.link target) ↔ t.item? l = some (.link target)

/-- A tree has its own links. -/
theorem SameLinks.refl (t : FileTree) : SameLinks t t := fun _ _ => Iff.rfl

/-- Having the same links goes both ways. -/
theorem SameLinks.symm (h : SameLinks t t') : SameLinks t' t := fun l target => (h l target).symm

/-- Trees that have the same links as a third one have the same links. -/
theorem SameLinks.trans {t'' : FileTree} (h : SameLinks t t') (h' : SameLinks t' t'') :
    SameLinks t t'' := fun l target => (h' l target).trans (h l target)

/-- Locations are real in all trees with the same links. -/
theorem IsReal.congr {loc : Location} (h : t.IsReal loc) (hlinks : SameLinks t t') :
    t'.IsReal loc :=
  ⟨h.names, fun l target hl hlink => h.linkless l target hl ((hlinks l target).1 hlink)⟩

/-! ## Resolving -/

/-- The links that are open, no one of them twice, and enough room to open all the others. -/
structure IsRoomy (t : FileTree) (depth : Nat) (opened : List Location) : Prop where
  nodup : opened.Nodup
  standing : ∀ l ∈ opened, l ∈ t.items.map Prod.fst
  room : t.items.length ≤ depth + opened.length

/-- With no link open there is room to open all of them. -/
theorem isRoomy_nil (t : FileTree) : t.IsRoomy t.items.length [] :=
  ⟨List.nodup_nil, by simp, Nat.le_refl _⟩

/-- There is always room to open a link. -/
theorem IsRoomy.cons {depth : Nat} {opened : List Location} (h : t.IsRoomy depth opened)
    {l : Location} (hl : l ∉ opened) (hne : l ≠ []) {item : Item} (hitem : t.item? l = some item) :
    ∃ d, depth = d + 1 ∧ t.IsRoomy d (l :: opened) := by
  have hmem : l ∈ t.items.map Prod.fst := by
    rw [item?, if_neg hne] at hitem
    obtain ⟨front, back, hitems, -⟩ := List.lookup_eq_some_iff.1 hitem
    rw [hitems]
    simp
  have hnodup : (l :: opened).Nodup := List.nodup_cons.2 ⟨hl, h.nodup⟩
  have hstanding : ∀ m ∈ l :: opened, m ∈ t.items.map Prod.fst :=
    List.forall_mem_cons.2 ⟨hmem, h.standing⟩
  have hroom := h.room
  have hsize : (l :: opened).length ≤ (t.items.map Prod.fst).length :=
    (List.subperm_of_subset hnodup hstanding).length_le
  rw [List.length_map, List.length_cons] at hsize
  refine ⟨depth - 1, by omega, hnodup, hstanding, ?_⟩
  rw [List.length_cons]
  omega

/-- Trees with the same links have room for the same new link. -/
theorem IsRoomy.both (hlinks : SameLinks t t') {d depth' : Nat} {opened : List Location}
    (h : t.IsRoomy (d + 1) opened) (h' : t'.IsRoomy depth' opened) {l : Location} {target : String}
    (hnew : ¬opened.contains l = true) (hne : l ≠ []) (hitem : t.item? l = some (.link target)) :
    ∃ d', depth' = d' + 1 ∧ t.IsRoomy d (l :: opened) ∧ t'.IsRoomy d' (l :: opened) := by
  have hnotMem : l ∉ opened := by simpa using hnew
  obtain ⟨d₁, hd₁, hroomy⟩ := h.cons hnotMem hne hitem
  obtain ⟨d', hd', hroomy'⟩ := h'.cons hnotMem hne ((hlinks _ _).2 hitem)
  obtain rfl := Nat.succ.inj hd₁
  exact ⟨d', hd', hroomy, hroomy'⟩

/-- **What steps are resolved to depends on the links alone**: trees with the same links resolve the
steps alike, as long as there is room in both for the links that are not open yet. -/
theorem resolveSteps_congr (hlinks : SameLinks t t') {depth depth' : Nat} {opened : List Location}
    (h : t.IsRoomy depth opened) (h' : t'.IsRoomy depth' opened) (loc : Location)
    (steps : List String) :
    t'.resolveSteps depth' opened loc steps = t.resolveSteps depth opened loc steps := by
  fun_induction resolveSteps t depth opened loc steps generalizing depth' with
  | case1 => rw [resolveSteps]
  | case2 _ _ _ _ _ hpiece ih => rw [resolveSteps, if_pos hpiece, ih h h']
  | case3 _ _ _ _ _ hpiece hup ih => rw [resolveSteps, if_neg hpiece, if_pos hup, ih h h']
  | case4 _ _ _ _ _ hpiece hup e hflaw => rw [resolveSteps, if_neg hpiece, if_neg hup, hflaw]
  | case5 _ opened loc name _ hpiece hup hflaw target hitem hopen =>
    rw [resolveSteps, if_neg hpiece, if_neg hup, hflaw, (hlinks _ _).2 hitem]
    exact if_pos hopen
  | case6 opened loc name rest _ _ _ target hitem hnew =>
    -- There is room for every link that is not open yet.
    obtain ⟨d, hd, -⟩ := h.cons (by simpa using hnew) (by simp) hitem
    exact absurd hd (by simp)
  | case7 opened loc name rest hpiece hup hflaw target hitem hnew d middle hinner ih₁ ih₂ =>
    obtain ⟨d', rfl, hroomy, hroomy'⟩ := h.both hlinks h' hnew (by simp) hitem
    rw [resolveSteps, if_neg hpiece, if_neg hup, hflaw, (hlinks _ _).2 hitem]
    simp only [if_neg hnew, ih₁ hroomy hroomy', hinner]
    exact ih₂ h h'
  | case8 opened loc name rest hpiece hup hflaw target hitem hnew d link q hinner ih =>
    obtain ⟨d', rfl, hroomy, hroomy'⟩ := h.both hlinks h' hnew (by simp) hitem
    rw [resolveSteps, if_neg hpiece, if_neg hup, hflaw, (hlinks _ _).2 hitem]
    simp only [if_neg hnew, ih hroomy hroomy', hinner]
  | case9 opened loc name rest hpiece hup hflaw target hitem hnew d e hinner ih =>
    obtain ⟨d', rfl, hroomy, hroomy'⟩ := h.both hlinks h' hnew (by simp) hitem
    rw [resolveSteps, if_neg hpiece, if_neg hup, hflaw, (hlinks _ _).2 hitem]
    simp only [if_neg hnew, ih hroomy hroomy', hinner]
  | case10 _ _ _ _ _ hpiece hup hflaw hlink ih =>
    rw [resolveSteps, if_neg hpiece, if_neg hup, hflaw]
    dsimp only
    split
    · rename_i target hitem
      exact absurd ((hlinks _ _).1 hitem) (hlink target)
    · exact ih h h'

/-- A link starts where it stands, or at the root, and so at a real location if it stands in one. -/
theorem isReal_linkStart {loc : Location} (h : t.IsReal loc) (target : String) :
    t.IsReal (linkStart loc target) := by
  unfold linkStart
  split
  · exact isReal_nil t
  · exact h

/-- A piece that leads to somewhere else, and not upward, is a name. -/
theorem isName_of_step {piece : String} (hpiece : ¬(!Path.isStep piece) = true)
    (hup : ¬(piece == "..") = true) : IsName piece :=
  ⟨by simpa using hpiece, by simpa using hup⟩

/-- **Steps that are resolved to the end lead to a location without links**, when they start at such
a location: a link is replaced by what it leads to, and steps upward stay on the way. -/
theorem isReal_of_resolveSteps {depth : Nat} {opened : List Location} {loc loc' : Location}
    {steps : List String} (hloc : t.IsReal loc)
    (h : t.resolveSteps depth opened loc steps = .full loc') : t.IsReal loc' := by
  fun_induction resolveSteps t depth opened loc steps generalizing loc' with
  | case1 depth opened loc =>
    obtain rfl : loc = loc' := Resolution.full.inj h
    exact hloc
  | case2 _ _ _ _ _ _ ih => exact ih hloc h
  | case3 _ _ loc _ _ _ _ ih => exact ih (hloc.mono (List.dropLast_prefix loc)) h
  | case4 => exact absurd h (by simp)
  | case5 => exact absurd h (by simp)
  | case6 => exact absurd h (by simp)
  | case7 _ loc _ _ _ _ _ target _ _ _ _ hlink ih₁ ih₂ =>
    exact ih₂ (ih₁ (isReal_linkStart hloc target) hlink) h
  | case8 => exact absurd h (by simp)
  | case9 => exact absurd h (by simp)
  | case10 _ _ _ _ _ hpiece hup _ hlink ih =>
    exact ih (hloc.concat (isName_of_step hpiece hup) fun target => hlink target) h

/-! ## Links that lead back to themselves -/

section Followed

variable {links : Nat} {loc : Location} {name : String} {rest : List String} {p : Place}

/-- A piece that is no step leads to where the rest leads. -/
theorem walk_of_walk_here (hname : Path.isStep name = false)
    (h : t.walk links loc (name :: rest) = .ok p) : t.walk links loc rest = .ok p := by
  by_cases hloc : t.item? loc = some .directory
  · rwa [walk_here hloc hname] at h
  · exact absurd h (by simp [walk_of_not_directory hloc])

/-- A step upward leads to where the rest leads from the directory above. -/
theorem walk_of_walk_up (h : t.walk links loc (".." :: rest) = .ok p) :
    t.walk links loc.dropLast rest = .ok p := by
  by_cases hloc : t.item? loc = some .directory
  · rwa [walk_up hloc] at h
  · exact absurd h (by simp [walk_of_not_directory hloc])

/-- A step by a name that leads somewhere starts in a directory, and the name is short enough. -/
theorem directory_of_walk (hname : IsName name) (h : t.walk links loc (name :: rest) = .ok p) :
    t.item? loc = some .directory ∧ IsShort name := by
  by_cases hloc : t.item? loc = some .directory
  · by_cases hshort : IsShort name
    · exact ⟨hloc, hshort⟩
    · exact absurd h (by simp [walk_long hloc hname hshort])
  · exact absurd h (by simp [walk_of_not_directory hloc])

/-- A step by the name of a link uses up one link. -/
theorem exists_walk_of_link (hname : IsName name) {target : String}
    (hitem : t.item? (loc ++ [name]) = some (.link target))
    (h : t.walk links loc (name :: rest) = .ok p) :
    ∃ n, links = n + 1 ∧
      t.walk n (linkStart loc target) (Path.pieces target ++ rest) = .ok p := by
  obtain ⟨hloc, hshort⟩ := directory_of_walk hname h
  rw [walk_step hloc hname hshort, hitem] at h
  cases links with
  | zero => exact absurd h (by simp)
  | succ n => exact ⟨n, rfl, h⟩

/-- A step by another name that is not the last one. -/
theorem walk_of_linkless (hname : IsName name)
    (hlink : ∀ target, t.item? (loc ++ [name]) ≠ some (.link target)) (hrest : rest ≠ [])
    (h : t.walk links loc (name :: rest) = .ok p) : t.walk links (loc ++ [name]) rest = .ok p := by
  obtain ⟨hloc, hshort⟩ := directory_of_walk hname h
  by_cases hitem : t.item? (loc ++ [name]) = none
  · rw [walk_vacant hloc hname hshort hitem, if_neg (by simpa using hrest)] at h
    exact absurd h (by simp)
  · rwa [walk_taken hloc hname hshort hitem hlink] at h

end Followed

/-- Steps that are resolved to the end are followed to the same location, if that goes on from
there. -/
theorem exists_walk_of_resolveSteps (hlinks : SameLinks t t') {depth : Nat}
    {opened : List Location} {loc loc' : Location} {steps : List String}
    (h : t.resolveSteps depth opened loc steps = .full loc') {links : Nat} {tail : List String}
    (htail : tail ≠ []) {p : Place} (hwalk : t'.walk links loc (steps ++ tail) = .ok p) :
    ∃ links' ≤ links, t'.walk links' loc' tail = .ok p := by
  fun_induction resolveSteps t depth opened loc steps generalizing loc' links tail with
  | case1 depth opened loc =>
    obtain rfl : loc = loc' := Resolution.full.inj h
    exact ⟨links, Nat.le_refl _, hwalk⟩
  | case2 _ _ _ _ _ hpiece ih =>
    exact ih h htail (walk_of_walk_here (by simpa using hpiece) hwalk)
  | case3 _ _ _ _ _ _ hup ih =>
    obtain rfl := beq_iff_eq.1 hup
    exact ih h htail (walk_of_walk_up hwalk)
  | case4 => exact absurd h (by simp)
  | case5 => exact absurd h (by simp)
  | case6 => exact absurd h (by simp)
  | case7 _ _ _ rest hpiece hup _ target hitem _ _ _ hinner ih₁ ih₂ =>
    have hname := isName_of_step hpiece hup
    obtain ⟨n, rfl, hopened⟩ := exists_walk_of_link hname ((hlinks _ _).2 hitem) hwalk
    -- The link is opened, its steps lead to where the rest starts, and each way takes links.
    obtain ⟨n₁, hn₁, hmiddle⟩ := ih₁ hinner (List.append_ne_nil_of_right_ne_nil rest htail) hopened
    obtain ⟨n₂, hn₂, hend⟩ := ih₂ h htail hmiddle
    exact ⟨n₂, by omega, hend⟩
  | case8 => exact absurd h (by simp)
  | case9 => exact absurd h (by simp)
  | case10 _ _ _ _ rest hpiece hup _ hlink ih =>
    have hrest := List.append_ne_nil_of_right_ne_nil rest htail
    refine ih h htail (walk_of_linkless (isName_of_step hpiece hup) ?_ hrest hwalk)
    exact fun target hitem => hlink target ((hlinks _ _).1 hitem)

/-- Following the steps comes to no end with fewer links than this, in all trees with the same
links. -/
def Fails (t : FileTree) (n : Nat) (loc : Location) (steps : List String) : Prop :=
  ∀ t', SameLinks t t' → ∀ links < n, ∀ tail p, t'.walk links loc (steps ++ tail) ≠ .ok p

namespace Fails

variable {n : Nat} {loc : Location} {name : String} {rest : List String}

/-- What fails fails with a piece in front that is no step. -/
theorem here (hname : Path.isStep name = false) (h : t.Fails n loc rest) :
    t.Fails n loc (name :: rest) :=
  fun t' ht' links hlt tail p hwalk => h t' ht' links hlt tail p (walk_of_walk_here hname hwalk)

/-- What fails from the directory above fails with a step upward in front. -/
theorem up (h : t.Fails n loc.dropLast rest) : t.Fails n loc (".." :: rest) :=
  fun t' ht' links hlt tail p hwalk => h t' ht' links hlt tail p (walk_of_walk_up hwalk)

/-- Where a name fails, everything fails that starts with it. -/
theorem append (h : t.Fails n loc [name]) (rest : List String) : t.Fails n loc (name :: rest) :=
  fun t' ht' links hlt tail p hwalk => h t' ht' links hlt (rest ++ tail) p hwalk

/-- What fails behind a name that is no link fails before it. -/
theorem step (hname : IsName name) (hlink : ∀ target, t.item? (loc ++ [name]) ≠ some (.link target))
    (hrest : rest ≠ []) (h : t.Fails n (loc ++ [name]) rest) : t.Fails n loc (name :: rest) := by
  intro t' ht' links hlt tail p hwalk
  refine h t' ht' links hlt tail p (walk_of_linkless hname (fun target hitem => ?_) ?_ hwalk)
  · exact hlink target ((ht' _ _).1 hitem)
  · exact List.append_ne_nil_of_left_ne_nil hrest tail

section Link

variable {target : String} (hname : IsName name)
  (hitem : t.item? (loc ++ [name]) = some (.link target))
include hname hitem

/-- What fails behind a link fails before it, and with one link more. -/
theorem link (h : t.Fails n (linkStart loc target) (Path.pieces target)) (rest : List String) :
    t.Fails (n + 1) loc (name :: rest) := by
  intro t' ht' links hlt tail p hwalk
  obtain ⟨k, rfl, hopened⟩ := exists_walk_of_link hname ((ht' _ _).2 hitem) hwalk
  exact h t' ht' k (Nat.lt_of_succ_lt_succ hlt) (rest ++ tail) p hopened

/-- What fails from where a link leads fails before it. -/
theorem through {depth : Nat} {opened : List Location} {middle : Location}
    (hinner : t.resolveSteps depth opened (linkStart loc target) (Path.pieces target) =
      .full middle)
    (hrest : rest ≠ []) (h : t.Fails n middle rest) : t.Fails n loc (name :: rest) := by
  intro t' ht' links hlt tail p hwalk
  obtain ⟨k, rfl, hopened⟩ := exists_walk_of_link hname ((ht' _ _).2 hitem) hwalk
  obtain ⟨k', hk', hmiddle⟩ := exists_walk_of_resolveSteps ht' hinner
    (List.append_ne_nil_of_left_ne_nil hrest tail) hopened
  exact h t' ht' k' (by omega) tail p hmiddle

end Link

/-- What fails is a matter of the links alone. -/
theorem congr (h : t.Fails n loc rest) (hlinks : SameLinks t t') : t'.Fails n loc rest :=
  fun t'' ht'' => h t'' (hlinks.trans ht'')

/-- What fails fails with fewer links. -/
theorem mono {m : Nat} (h : t.Fails n loc rest) (hm : m ≤ n) : t.Fails m loc rest :=
  fun t' ht' links hlt => h t' ht' links (Nat.lt_of_lt_of_le hlt hm)

end Fails

/-- The steps run into a link that is never left: into one that leads back to itself, or into one
that is open, so that the steps fail as far as the link does. -/
def RunsInto (t : FileTree) (opened : List Location) (loc : Location) (steps : List String)
    (link : Location) : Prop :=
  ∃ l name, link = l ++ [name] ∧ t.IsReal l ∧ IsName name ∧
    ((∀ n, t.Fails n l [name]) ∨ link ∈ opened ∧ ∀ n, t.Fails n l [name] → t.Fails n loc steps)

/-- Steps that fail as far as others do run into the same link. -/
theorem RunsInto.mono {opened : List Location} {loc loc' link : Location}
    {steps steps' : List String} (h : t.RunsInto opened loc steps link)
    (hfails : ∀ n, t.Fails n loc steps → t.Fails n loc' steps') :
    t.RunsInto opened loc' steps' link := by
  obtain ⟨l, name, hlink, hl, hname, hend | ⟨hopen, hend⟩⟩ := h
  · exact ⟨l, name, hlink, hl, hname, .inl hend⟩
  · exact ⟨l, name, hlink, hl, hname, .inr ⟨hopen, fun n hn => hfails n (hend n hn)⟩⟩

/-- **What runs into a link behind another one runs into a link from before it.** Where the way
behind the link leads to the link itself, it is never left: with one link more it still fails. -/
theorem RunsInto.link {opened : List Location} {loc stuck : Location} {name target : String}
    (hname : IsName name) (hitem : t.item? (loc ++ [name]) = some (.link target))
    (h : t.RunsInto ((loc ++ [name]) :: opened) (linkStart loc target) (Path.pieces target) stuck)
    (rest : List String) : t.RunsInto opened loc (name :: rest) stuck := by
  obtain ⟨l, m, rfl, hl, hm, hfails | ⟨hopen, hfails⟩⟩ := h
  · exact ⟨l, m, rfl, hl, hm, .inl hfails⟩
  · refine ⟨l, m, rfl, hl, hm, ?_⟩
    rcases List.mem_cons.1 hopen with hself | hopen
    · obtain ⟨rfl, hlast⟩ := List.append_inj' hself rfl
      obtain rfl := List.singleton_inj.1 hlast
      refine .inl fun n => ?_
      induction n with
      | zero => exact fun t' ht' links hlt => absurd hlt (Nat.not_lt_zero links)
      | succ n ih => exact Fails.link hname hitem (hfails n ih) []
    · refine .inr ⟨hopen, fun n hn => ?_⟩
      exact (Fails.link hname hitem (hfails n hn) rest).mono (Nat.le_succ n)

/-- What is stuck has steps left: no steps at all are resolved to where they start. -/
theorem ne_nil_of_stuck {depth : Nat} {opened : List Location} {loc link : Location} {q : Path}
    {steps : List String} (h : t.resolveSteps depth opened loc steps = .stuck link q) :
    steps ≠ [] := by
  rintro rfl
  rw [resolveSteps] at h
  exact absurd h (by simp)

/-- **Steps that are not resolved to the end run into a link that is never left**, by induction on
how they are resolved: the link is open already, or the way through another link gets stuck itself.
-/
theorem runsInto_of_stuck {depth : Nat} {opened : List Location} {loc link : Location} {q : Path}
    {steps : List String} (hroomy : t.IsRoomy depth opened) (hloc : t.IsReal loc)
    (h : t.resolveSteps depth opened loc steps = .stuck link q) :
    t.RunsInto opened loc steps link := by
  fun_induction resolveSteps t depth opened loc steps generalizing link q with
  | case1 => exact absurd h (by simp)
  | case2 _ _ _ _ _ hpiece ih =>
    exact (ih hroomy hloc h).mono fun n => Fails.here (by simpa using hpiece)
  | case3 _ _ loc _ _ _ hup ih =>
    obtain rfl := beq_iff_eq.1 hup
    exact (ih hroomy (hloc.mono (List.dropLast_prefix loc)) h).mono fun n => Fails.up
  | case4 => exact absurd h (by simp)
  | case5 _ opened loc name rest hpiece hup _ target hitem hopen =>
    obtain ⟨rfl, -⟩ := Resolution.stuck.inj h
    exact ⟨loc, name, rfl, hloc, isName_of_step hpiece hup,
      .inr ⟨by simpa using hopen, fun n hn => hn.append rest⟩⟩
  | case6 opened loc name rest _ _ _ target hitem hnew =>
    obtain ⟨d, hd, -⟩ := hroomy.cons (by simpa using hnew) (by simp) hitem
    exact absurd hd (by simp)
  | case7 _ loc name rest hpiece hup _ target hitem _ _ _ hinner _ ih₂ =>
    have hmiddle := isReal_of_resolveSteps (isReal_linkStart hloc target) hinner
    exact (ih₂ hroomy hmiddle h).mono fun n =>
      Fails.through (isName_of_step hpiece hup) hitem hinner (ne_nil_of_stuck h)
  | case8 opened loc name rest hpiece hup _ target hitem hnew d link' q' hinner ih =>
    obtain ⟨rfl, -⟩ := Resolution.stuck.inj h
    obtain ⟨d₁, hd₁, hroomy'⟩ := hroomy.cons (by simpa using hnew) (by simp) hitem
    obtain rfl := Nat.succ.inj hd₁
    -- The way through the link gets stuck itself, at some link further on.
    exact (ih hroomy' (isReal_linkStart hloc target) hinner).link (isName_of_step hpiece hup)
      hitem rest
  | case9 => exact absurd h (by simp)
  | case10 _ _ loc name rest hpiece hup _ hlink ih =>
    have hname := isName_of_step hpiece hup
    exact (ih hroomy (hloc.concat hname hlink) h).mono fun n =>
      Fails.step hname hlink (ne_nil_of_stuck h)

/-- What is joined to a path leads somewhere else with every step, if the path does. -/
theorem isStep_extend {p : Path} (h : ∀ name ∈ p.steps, Path.isStep name = true)
    (pieces : List String) : ∀ name ∈ (p.extend pieces).steps, Path.isStep name = true := by
  have hmore : ∀ name ∈ pieces.filter Path.isStep, Path.isStep name = true := fun name hname =>
    (List.mem_filter.1 hname).2
  unfold Path.extend
  dsimp only
  split
  · exact List.forall_mem_append.2 ⟨h, hmore⟩
  · exact hmore

/-- **All steps of a path that is stuck lead somewhere else**: those on the way to the link are
names, and of what is joined to it the empty steps are dropped. -/
theorem isStep_of_stuck {depth : Nat} {opened : List Location} {loc link : Location} {q : Path}
    {steps : List String} (hloc : t.IsReal loc)
    (h : t.resolveSteps depth opened loc steps = .stuck link q) :
    ∀ name ∈ q.steps, Path.isStep name = true := by
  have hhere : ∀ {loc : Location} {name : String}, t.IsReal loc → IsName name →
      ∀ rest, ∀ m ∈ (Path.extend ⟨.root, loc ++ [name]⟩ rest).steps, Path.isStep m = true := by
    intro loc name hloc hname
    refine isStep_extend (List.forall_mem_append.2 ⟨fun m hm => (hloc.names m hm).1, ?_⟩)
    exact List.forall_mem_singleton.2 hname.1
  fun_induction resolveSteps t depth opened loc steps generalizing link q with
  | case1 => exact absurd h (by simp)
  | case2 _ _ _ _ _ _ ih => exact ih hloc h
  | case3 _ _ loc _ _ _ _ ih => exact ih (hloc.mono (List.dropLast_prefix loc)) h
  | case4 => exact absurd h (by simp)
  | case5 _ _ _ _ _ hpiece hup =>
    obtain ⟨-, rfl⟩ := Resolution.stuck.inj h
    exact hhere hloc (isName_of_step hpiece hup) _
  | case6 _ _ _ _ hpiece hup =>
    obtain ⟨-, rfl⟩ := Resolution.stuck.inj h
    exact hhere hloc (isName_of_step hpiece hup) _
  | case7 _ loc _ _ _ _ _ target _ _ _ _ hinner _ ih₂ =>
    exact ih₂ (isReal_of_resolveSteps (isReal_linkStart hloc target) hinner) h
  | case8 _ loc _ rest _ _ _ target _ _ _ _ _ hinner ih =>
    obtain ⟨-, rfl⟩ := Resolution.stuck.inj h
    exact isStep_extend (ih (isReal_linkStart hloc target) hinner) rest
  | case9 => exact absurd h (by simp)
  | case10 _ _ _ _ _ hpiece hup _ hlink ih =>
    exact ih (hloc.concat (isName_of_step hpiece hup) hlink) h

/-! ## Following real locations -/

/-- **A real location is reached by its names, or not at all**; a loop of links is not the reason.
-/
theorem walk_of_isReal {loc : Location} {steps : List String} (h : t.IsReal (loc ++ steps))
    (links : Nat) :
    t.walk links loc steps = .ok (.taken (loc ++ steps)) ∨
      (t.walk links loc steps = .ok (.vacant (loc ++ steps)) ∧ loc ++ steps ≠ [] ∧
        t.item? (loc ++ steps) = none) ∨
      ∃ e ≠ .linkLoop, t.walk links loc steps = .error e := by
  induction steps generalizing loc with
  | nil => exact .inl (by rw [walk_nil, List.append_nil])
  | cons name rest ih =>
    have hsplit : loc ++ name :: rest = loc ++ [name] ++ rest := by simp
    have hname : IsName name := h.names name (by simp)
    by_cases hloc : t.item? loc = some .directory
    · by_cases hshort : IsShort name
      · by_cases hitem : t.item? (loc ++ [name]) = none
        · rw [walk_vacant hloc hname hshort hitem]
          cases rest with
          | nil => exact .inr (.inl ⟨rfl, by simp, hitem⟩)
          | cons m rest => exact .inr (.inr ⟨.missing, by simp, rfl⟩)
        · -- A real location has no link on the way, so that the item is gone through.
          have hlink : ∀ target, t.item? (loc ++ [name]) ≠ some (.link target) := fun target =>
            h.linkless _ target (hsplit ▸ List.prefix_append _ _)
          rw [walk_taken hloc hname hshort hitem hlink, hsplit]
          exact ih (hsplit ▸ h)
      · exact .inr (.inr ⟨.nameTooLong, by simp, walk_long hloc hname hshort _ _⟩)
    · exact .inr (.inr ⟨.notDirectory, by simp, walk_of_not_directory hloc _ _ _⟩)

/-- Where the path of a real location leads. -/
theorem place_of_isReal {loc : Location} (h : t.IsReal loc) :
    t.place [] ⟨.root, loc⟩ = .ok (.taken loc) ∨
      (t.place [] ⟨.root, loc⟩ = .ok (.vacant loc) ∧ loc ≠ [] ∧ t.item? loc = none) ∨
      ∃ e ≠ .linkLoop, t.place [] ⟨.root, loc⟩ = .error e := by
  cases hflaw : (⟨.root, loc⟩ : Path).flaw? with
  | some e =>
    refine .inr (.inr ⟨e, ?_, by rw [place, hflaw]⟩)
    rintro rfl
    exact Path.flaw?_ne_linkLoop _ hflaw
  | none =>
    rw [place_of_flaw?_eq_none hflaw]
    have hway : t.IsReal ([] ++ loc) := h
    exact walk_of_isReal hway maxLinks

/-- A way that goes on from a real location is followed from there. -/
theorem walk_of_walk_append {loc : Location} {steps tail : List String}
    (h : t.IsReal (loc ++ steps)) (htail : tail ≠ []) {links : Nat} {p : Place}
    (hwalk : t.walk links loc (steps ++ tail) = .ok p) :
    t.walk links (loc ++ steps) tail = .ok p := by
  induction steps generalizing loc with
  | nil => rwa [List.append_nil]
  | cons name rest ih =>
    have hsplit : loc ++ name :: rest = loc ++ [name] ++ rest := by simp
    have hname : IsName name := h.names name (by simp)
    have hlink : ∀ target, t.item? (loc ++ [name]) ≠ some (.link target) := fun target =>
      h.linkless _ target (hsplit ▸ List.prefix_append _ _)
    have hnext := walk_of_linkless hname hlink (List.append_ne_nil_of_right_ne_nil rest htail) hwalk
    rw [hsplit]
    exact ih (hsplit ▸ h) hnext

/-! ## What paths are resolved to -/

/-- The path that steps are resolved to: a location, or what is joined to a link that leads back to
itself, with steps upward taken back. Where a name is faulty there is none, and the root stands for
it. -/
def Resolution.path : Resolution → Path
  | .full loc => ⟨.root, loc⟩
  | .stuck _ q => ⟨q.anchor, plainSteps q.steps⟩
  | .faulty _ => ⟨.root, []⟩

/-- What a path is resolved to, if it can be resolved. -/
def resolution (t : FileTree) (current : Location) (p : Path) : Path :=
  (t.resolveSteps t.items.length [] (p.start current) p.steps).path

/-- A path with a text that cannot name files is not kept, whatever stands in the tree. -/
theorem checkResolved_of_textFlaw? {p : Path} {e : PathError} (h : textFlaw? p.text = some e) :
    t.checkResolved p = .error e := by
  have hflaw : p.flaw? = some e := by rw [Path.flaw?, h]
  unfold checkResolved place
  rw [hflaw]
  rcases eq_of_textFlaw? h with rfl | rfl
  · rfl
  · rfl

/-- **A resolved path is kept** exactly when it comes to no loop of links, and its text can name
files. -/
theorem checkResolved_eq_ok {p q : Path} :
    t.checkResolved p = .ok q ↔
      q = p ∧ t.place [] p ≠ .error .linkLoop ∧ textFlaw? p.text = none := by
  cases htext : textFlaw? p.text with
  | some e => simp [checkResolved_of_textFlaw? htext]
  | none =>
    -- What is wrong with a text is not found by following the path.
    have hclean : ∀ e text, textFlaw? text = some e → t.place [] p ≠ .error e := by
      intro e text hflawed
      unfold place
      cases hflaw : p.flaw? with
      | none => exact walk_ne_of_textFlaw? hflawed _ _ _
      | some f =>
        rintro ⟨⟩
        rcases Path.eq_of_flaw? hflaw with hf | rfl
        · rw [htext] at hf
          exact absurd hf (by simp)
        · exact absurd (eq_of_textFlaw? hflawed) (by simp)
    have hhalf : t.place [] p ≠ .error .unencodable :=
      hclean _ (String.ofList (Text.spellCode 0xD800)) (by decide +kernel)
    have hnul : t.place [] p ≠ .error .embeddedNul :=
      hclean _ (String.singleton (Char.ofNat 0)) (by decide +kernel)
    unfold checkResolved
    split
    · rename_i hloop
      simp [hloop]
    · rename_i h
      exact absurd h hhalf
    · rename_i h
      exact absurd h hnul
    · rename_i hloop _ _
      have hloop : t.place [] p ≠ .error .linkLoop := hloop
      simp [hloop, eq_comm]

/-- **What a path is resolved to**: its resolution, when no name on the way is faulty, there is no
loop of links, and the text of it can name files. -/
theorem resolve_eq_ok {current : Location} {p q : Path} :
    t.resolve current p = .ok q ↔
      (∀ e, t.resolveSteps t.items.length [] (p.start current) p.steps ≠ .faulty e) ∧
        q = t.resolution current p ∧ t.place [] q ≠ .error .linkLoop ∧ textFlaw? q.text = none := by
  have hcheck : ∀ r : Path, t.checkResolved r = .ok q ↔
      q = r ∧ t.place [] q ≠ .error .linkLoop ∧ textFlaw? q.text = none := by
    intro r
    rw [checkResolved_eq_ok]
    refine and_congr_right ?_
    rintro rfl
    exact Iff.rfl
  unfold resolve resolution
  cases hsteps : t.resolveSteps t.items.length [] (p.start current) p.steps with
  | full loc => simpa [Resolution.path] using hcheck ⟨.root, loc⟩
  | stuck link r => simpa [Resolution.path] using hcheck ⟨r.anchor, plainSteps r.steps⟩
  | faulty e => simp

/-- What a path is resolved to is its resolution. -/
theorem eq_resolution_of_resolve {current : Location} {p q : Path}
    (h : t.resolve current p = .ok q) : q = t.resolution current p := (resolve_eq_ok.1 h).2.1

/-- When no link leads back to itself, a path is resolved to a location. -/
theorem resolution_of_full {current loc : Location} {p : Path}
    (h : t.resolveSteps t.items.length [] (p.start current) p.steps = .full loc) :
    t.resolution current p = ⟨.root, loc⟩ := by
  rw [resolution, h]
  rfl

/-- What a path is resolved to depends on the links alone. -/
theorem SameLinks.resolution_eq (h : SameLinks t t') (current : Location) (p : Path) :
    t'.resolution current p = t.resolution current p := by
  unfold resolution
  rw [resolveSteps_congr h (isRoomy_nil t) (isRoomy_nil t')]

/-- No loop of links is on the way to a real location. -/
theorem place_ne_linkLoop_of_isReal {q : Path} (h : t.IsReal q.steps) :
    t.place [] q ≠ .error .linkLoop := by
  have hstart : q.start [] = [] := by simp [Path.start]
  unfold place
  cases hflaw : q.flaw? with
  | some e =>
    rintro ⟨⟩
    exact Path.flaw?_ne_linkLoop q hflaw
  | none =>
    have hway : t.IsReal ([] ++ q.steps) := h
    rw [hstart]
    rcases walk_of_isReal hway maxLinks with hp | ⟨hp, -, -⟩ | ⟨e, hloop, hp⟩
    · simp [hp]
    · simp [hp]
    · simpa [hp] using hloop

/-- **A path is resolved as before while the links stay**, when what it is resolved to has no link
on the way: a loop of links could not come about there. -/
theorem SameLinks.resolve_eq (hlinks : SameLinks t t') {current : Location} {p q : Path}
    (h : t.resolve current p = .ok q) (hreal : t'.IsReal q.steps) :
    t'.resolve current p = .ok q := by
  obtain ⟨hclean, hq, -, htext⟩ := resolve_eq_ok.1 h
  refine resolve_eq_ok.2 ⟨fun e => ?_, hq.trans (hlinks.resolution_eq current p).symm,
    place_ne_linkLoop_of_isReal hreal, htext⟩
  rw [resolveSteps_congr hlinks (isRoomy_nil t) (isRoomy_nil t')]
  exact hclean e

/-- The names of a real location are resolved as they are, unless one of them cannot name files:
then the first one of them is found. -/
theorem resolveSteps_of_isReal {loc : Location} {steps : List String} (h : t.IsReal (loc ++ steps))
    (depth : Nat) (opened : List Location) :
    t.resolveSteps depth opened loc steps =
      match steps.findSome? textFlaw? with
      | some e => .faulty e
      | none => .full (loc ++ steps) := by
  induction steps generalizing loc with
  | nil =>
    rw [resolveSteps, List.append_nil]
    rfl
  | cons name rest ih =>
    have hsplit : loc ++ name :: rest = loc ++ [name] ++ rest := by simp
    obtain ⟨hstep, hup⟩ := h.names name (by simp)
    rw [resolveSteps, if_neg (by simpa using hstep), if_neg (by simpa using hup),
      List.findSome?_cons]
    cases textFlaw? name with
    | some e => rfl
    | none =>
      rw [hsplit] at h ⊢
      dsimp only
      split
      · rename_i target hlink
        exact absurd hlink (h.linkless _ target (List.prefix_append _ _))
      · exact ih h

/-- **The path of a real location is resolved to itself**, unless one of its names cannot name
files. -/
theorem resolve_of_isReal {loc : Location} (h : t.IsReal loc) (current : Location) :
    t.resolve current ⟨.root, loc⟩ =
      match loc.findSome? textFlaw? with
      | some e => .error e
      | none => .ok ⟨.root, loc⟩ := by
  have hsteps : t.resolveSteps t.items.length [] [] loc =
      match loc.findSome? textFlaw? with
      | some e => .faulty e
      | none => .full loc := @resolveSteps_of_isReal t [] loc h _ _
  have hstart : (⟨.root, loc⟩ : Path).start current = [] := by simp [Path.start]
  unfold resolve
  rw [hstart, hsteps]
  cases hclean : loc.findSome? textFlaw? with
  | some e => rfl
  | none =>
    have htext := (Path.textFlaw?_text ⟨.root, loc⟩).2 (List.findSome?_eq_none_iff.1 hclean)
    exact checkResolved_eq_ok.2 ⟨rfl, place_ne_linkLoop_of_isReal (q := ⟨.root, loc⟩) h, htext⟩

/-- The path runs into a link that leads back to itself, and what is joined to the link leads away
from it, by steps upward or since it starts anew. -/
def LeavesLoop (t : FileTree) (current : Location) (p : Path) : Prop :=
  ∃ link q, t.resolveSteps t.items.length [] (p.start current) p.steps = .stuck link q ∧
    ¬link <+: plainSteps q.steps

/-- Whether a path leaves a link that leads back to itself depends on the links alone. -/
theorem SameLinks.leavesLoop_iff (h : SameLinks t t') {current : Location} {p : Path} :
    t'.LeavesLoop current p ↔ t.LeavesLoop current p := by
  unfold LeavesLoop
  rw [resolveSteps_congr h (isRoomy_nil t) (isRoomy_nil t')]

/-- The way to the location leads through a link that is never left. -/
def IsDeadEnd (t : FileTree) (loc : Location) : Prop :=
  ∃ l name tail, loc = l ++ name :: tail ∧ t.IsReal l ∧ ∀ n, t.Fails n l [name]

/-- Steps that lead somewhere else are names, once those upward are taken back. -/
theorem isName_plainSteps {steps : List String} (h : ∀ name ∈ steps, Path.isStep name = true) :
    ∀ name ∈ plainSteps steps, IsName name := by
  have hfold : ∀ loc : Location, (∀ name ∈ loc, IsName name) →
      ∀ name ∈ steps.foldl (fun loc name => if name == ".." then loc.dropLast
        else loc ++ [name]) loc, IsName name := by
    induction steps with
    | nil => exact fun loc hloc => hloc
    | cons name steps ih =>
      obtain ⟨hname, hsteps⟩ := List.forall_mem_cons.1 h
      intro loc hloc
      rw [List.foldl_cons]
      refine ih hsteps _ ?_
      by_cases hup : name = ".."
      · rw [if_pos (by simpa using hup)]
        exact fun m hm => hloc m ((List.dropLast_sublist loc).subset hm)
      · rw [if_neg (by simpa using hup), List.forall_mem_append, List.forall_mem_singleton]
        exact ⟨hloc, hname, hup⟩
  exact hfold [] (by simp)

/-- A path starts at a real location when the current directory is one. -/
theorem isReal_start {current : Location} (hcurrent : t.IsReal current) (p : Path) :
    t.IsReal (p.start current) := by
  unfold Path.start
  split
  · exact hcurrent
  · exact isReal_nil t

/-- **What a path is resolved to has names that stand for themselves**, whether it is resolved to
the end or not. -/
theorem isName_of_resolve {current : Location} {p q : Path} (hcurrent : t.IsReal current)
    (h : t.resolve current p = .ok q) : ∀ name ∈ q.steps, IsName name := by
  rw [eq_resolution_of_resolve h, resolution]
  cases hsteps : t.resolveSteps t.items.length [] (p.start current) p.steps with
  | full loc => exact (isReal_of_resolveSteps (isReal_start hcurrent p) hsteps).names
  | stuck link q => exact isName_plainSteps (isStep_of_stuck (isReal_start hcurrent p) hsteps)
  | faulty e => exact List.forall_mem_nil _

/-- **A path is resolved to a real location or to a dead end**, unless it leads away from a link
that leads back to itself. -/
theorem isReal_or_isDeadEnd_of_resolve {current : Location} {p q : Path}
    (hcurrent : t.IsReal current) (hleaves : ¬t.LeavesLoop current p)
    (h : t.resolve current p = .ok q) : t.IsReal q.steps ∨ t.IsDeadEnd q.steps := by
  have hstart := isReal_start hcurrent p
  rw [eq_resolution_of_resolve h, resolution]
  cases hsteps : t.resolveSteps t.items.length [] (p.start current) p.steps with
  | full loc => exact .inl (isReal_of_resolveSteps hstart hsteps)
  | faulty e => exact .inl (isReal_nil t)
  | stuck link r =>
    obtain ⟨l, name, rfl, hl, -, hfails⟩ := runsInto_of_stuck (isRoomy_nil t) hstart hsteps
    have hfails : ∀ n, t.Fails n l [name] := by simpa using hfails
    -- The path does not lead away from the link, and thus ends there or behind it.
    obtain ⟨tail, htail⟩ : l ++ [name] <+: plainSteps r.steps := by
      by_contra hlink
      exact hleaves ⟨_, r, hsteps, hlink⟩
    exact .inr ⟨l, name, tail, by rw [Resolution.path, ← htail]; simp, hl, hfails⟩

/-- Nothing is found behind a link that is never left. -/
theorem exists_place_of_fails {l : Location} {name : String} (hl : t.IsReal l)
    (h : ∀ n, t.Fails n l [name]) (tail : List String) :
    ∃ e, t.place [] ⟨.root, l ++ name :: tail⟩ = .error e := by
  cases hflaw : (⟨.root, l ++ name :: tail⟩ : Path).flaw? with
  | some e => exact ⟨e, by rw [place, hflaw]⟩
  | none =>
    rw [place_of_flaw?_eq_none hflaw]
    cases hwalk : t.walk maxLinks [] (l ++ name :: tail) with
    | error e => exact ⟨e, rfl⟩
    | ok p =>
      have hway : t.IsReal ([] ++ l) := hl
      have hend := walk_of_walk_append hway (by simp) hwalk
      exact absurd hend (h _ t (.refl t) maxLinks (Nat.lt_succ_self _) tail p)

/-! ## Changes -/

/-- What became of a tree: changes at the locations that may be touched, and directories made at
those that may be paved. Links are never changed. -/
structure Within (touched paved : Location → Prop) (t t' : FileTree) : Prop where
  links : SameLinks t t'
  item : ∀ l, t'.item? l = t.item? l ∨ touched l ∨
    (paved l ∧ t.item? l = none ∧ t'.item? l = some .directory)

namespace Within

variable {touched paved touched' paved' : Location → Prop} {t'' : FileTree}

/-- A tree that did not change is within everything. -/
theorem refl (touched paved : Location → Prop) (t : FileTree) : Within touched paved t t :=
  ⟨.refl t, fun _ => .inl rfl⟩

/-- One change after the other. -/
theorem trans (h : Within touched paved t t') (h' : Within touched paved t' t'') :
    Within touched paved t t'' := by
  refine ⟨h.links.trans h'.links, fun l => ?_⟩
  rcases h.item l with hl | hl | ⟨hp, hnone, hl⟩
  · rw [← hl]
    exact h'.item l
  · exact .inr (.inl hl)
  · rcases h'.item l with hl' | hl' | ⟨-, hnone', -⟩
    · exact .inr (.inr ⟨hp, hnone, hl'.trans hl⟩)
    · exact .inr (.inl hl')
    · rw [hl] at hnone'
      exact absurd hnone' (by simp)

/-- What is within less is within more. What may be paved may be touched instead. -/
theorem mono (h : Within touched paved t t') (htouched : ∀ l, touched l → touched' l)
    (hpaved : ∀ l, paved l → touched' l ∨ paved' l) : Within touched' paved' t t' := by
  refine ⟨h.links, fun l => ?_⟩
  rcases h.item l with hl | hl | ⟨hp, hnone, hl⟩
  · exact .inl hl
  · exact .inr (.inl (htouched l hl))
  · rcases hpaved l hp with ht | hp
    · exact .inr (.inl ht)
    · exact .inr (.inr ⟨hp, hnone, hl⟩)

/-- Real locations stay real. -/
theorem isReal (h : Within touched paved t t') {loc : Location} (hloc : t.IsReal loc) :
    t'.IsReal loc := hloc.congr h.links

end Within

/-- Putting an item that is no link, in place of none. -/
theorem within_put {loc : Location} (hne : loc ≠ []) {item : Item}
    (hitem : ∀ target, item ≠ .link target) (hold : ∀ target, t.item? loc ≠ some (.link target)) :
    Within (· = loc) (fun _ => False) t (t.put loc item) := by
  refine ⟨fun l target => ?_, fun l => ?_⟩
  · rw [item?_put t hne]
    split
    · rename_i hl
      subst hl
      constructor
      · intro heq
        exact absurd (Option.some.inj heq) (hitem target)
      · intro heq
        exact absurd heq (hold target)
    · exact Iff.rfl
  · rw [item?_put t hne]
    by_cases hl : l = loc
    · exact .inr (.inl hl)
    · exact .inl (if_neg hl)

/-- Making a directory at a real location makes it there, if anywhere. -/
theorem within_makeDirectory {loc : Location} (h : t.IsReal loc) {onWay : Bool}
    (hmade : t.makeDirectory [] onWay ⟨.root, loc⟩ = .ok t') :
    Within (fun _ => False) (· = loc) t t' := by
  unfold makeDirectory at hmade
  rcases place_of_isReal h with hp | ⟨hp, hne, hnone⟩ | ⟨e, -, hp⟩
  · simp only [hp] at hmade
    split at hmade
    · rw [← Except.ok.inj hmade]
      exact .refl _ _ t
    · exact absurd hmade (by simp)
  · simp only [hp] at hmade
    split at hmade
    · exact absurd hmade (by simp)
    · rw [← Except.ok.inj hmade]
      -- The directory is new, and no link was there before.
      have hnoLink : ∀ target, Item.directory ≠ .link target := by simp
      have hput := within_put hne hnoLink (h.linkless loc · List.prefix_rfl)
      refine ⟨hput.links, fun l => ?_⟩
      rw [item?_put t hne]
      by_cases hl : l = loc
      · exact .inr (.inr ⟨hl, hl ▸ hnone, if_pos hl⟩)
      · exact .inl (if_neg hl)
  · simp only [hp] at hmade
    exact absurd hmade (by simp)

/-- **Making directories along a real way paves it.** No link is on the way, so that every directory
is made where its name says. -/
theorem within_makeAlong {done rest : List String} (h : t.IsReal (done ++ rest)) :
    Within (fun _ => False) (· <+: done ++ rest) t (t.makeAlong [] .root done rest).tree := by
  induction rest generalizing t done with
  | nil => exact .refl _ _ t
  | cons name rest ih =>
    have hsplit : done ++ name :: rest = done ++ [name] ++ rest := by simp
    have hnext : done ++ [name] <+: done ++ name :: rest := hsplit ▸ List.prefix_append _ _
    rw [makeAlong_cons]
    cases hmade : t.makeDirectory [] (!rest.isEmpty) ⟨.root, done ++ [name]⟩ with
    | error e => exact .refl _ _ t
    | ok t' =>
      have hfirst := within_makeDirectory (h.mono hnext) hmade
      have hreal : t'.IsReal (done ++ [name] ++ rest) := hsplit ▸ hfirst.isReal h
      have hrest := ih hreal
      rw [hsplit]
      refine .trans (hfirst.mono (fun l hl => hl) fun l hl => .inr ?_) hrest
      rw [hl]
      exact List.prefix_append _ _

/-- Writing to a real location writes there, if anywhere. -/
theorem within_write {loc : Location} (h : t.IsReal loc) {bytes : ByteArray}
    (hwritten : t.write [] ⟨.root, loc⟩ bytes = .ok t') :
    Within (· = loc) (fun _ => False) t t' := by
  have hput : ∀ {l : Location}, l = loc → l ≠ [] →
      Within (· = loc) (fun _ => False) t (t.put l (.file bytes)) := by
    rintro l rfl hne
    exact within_put hne (by simp) (h.linkless l · List.prefix_rfl)
  unfold write at hwritten
  -- The bytes replace a file, or are put where nothing stands; an error changes nothing.
  rcases place_of_isReal h with hp | ⟨hp, hne, -⟩ | ⟨e, -, hp⟩
  · simp only [hp, bind, Except.bind, pure, Except.pure] at hwritten
    split at hwritten
    · exact absurd hwritten (by simp)
    · rename_i hdirectory
      rw [← Except.ok.inj hwritten]
      refine hput rfl ?_
      rintro rfl
      exact hdirectory rfl
  · simp only [hp, bind, Except.bind, pure, Except.pure] at hwritten
    rw [← Except.ok.inj hwritten]
    exact hput rfl hne
  · simp only [hp, bind, Except.bind] at hwritten
    exact absurd hwritten (by simp)

/-- Making the directories of a real way paves it. -/
theorem within_attemptDirectories {loc : Location} (h : t.IsReal loc) :
    Within (fun _ => False) (· <+: loc) t (t.attemptDirectories [] ⟨.root, loc⟩).tree := by
  unfold attemptDirectories
  split
  · exact .refl _ _ t
  · have hway : t.IsReal ([] ++ loc) := h
    exact within_makeAlong hway

/-- **Putting a file at a real location touches this location, and paves the way to it.** -/
theorem within_attemptFile {loc : Location} (h : t.IsReal loc) (bytes : ByteArray) :
    Within (· = loc) (· <+: loc) t (t.attemptFile [] ⟨.root, loc⟩ bytes).tree := by
  have hway : loc.dropLast <+: loc := List.dropLast_prefix loc
  have hmade : Within (· = loc) (· <+: loc) t
      (t.attemptDirectories [] (Path.parent ⟨.root, loc⟩)).tree :=
    (within_attemptDirectories (h.mono hway)).mono (fun l hl => hl.elim)
      fun l hl => .inr (hl.trans hway)
  unfold attemptFile
  simp only
  split
  · exact hmade
  · split
    · rename_i hwritten
      have hlast := within_write (hmade.isReal h) hwritten
      exact hmade.trans (hlast.mono (fun l hl => hl) fun l hl => hl.elim)
    · exact hmade

section DeadEnd

variable {name : String}

/-- Directories are made up to a link that is never left. -/
theorem makeAlong_of_fails {done rest : List String} (h : t.IsReal (done ++ rest))
    (hfails : ∀ n, t.Fails n (done ++ rest) [name]) (tail : List String) :
    Within (fun _ => False) (· <+: done ++ rest) t
        (t.makeAlong [] .root done (rest ++ name :: tail)).tree ∧
      (t.makeAlong [] .root done (rest ++ name :: tail)).error?.isSome := by
  induction rest generalizing t done with
  | nil =>
    rw [List.append_nil] at h hfails
    obtain ⟨e, he⟩ := exists_place_of_fails h hfails []
    rw [List.nil_append, makeAlong_cons]
    unfold makeDirectory
    rw [he]
    exact ⟨.refl _ _ t, rfl⟩
  | cons m rest ih =>
    have hsplit : done ++ m :: rest = done ++ [m] ++ rest := by simp
    have hnext : done ++ [m] <+: done ++ m :: rest := hsplit ▸ List.prefix_append _ _
    rw [List.cons_append, makeAlong_cons]
    cases hmade : t.makeDirectory [] (!(rest ++ name :: tail).isEmpty) ⟨.root, done ++ [m]⟩ with
    | error e => exact ⟨.refl _ _ t, rfl⟩
    | ok t' =>
      -- The links are the same after the first directory, so that the rest fails as well.
      have hfirst := within_makeDirectory (h.mono hnext) hmade
      rw [hsplit] at h hfails ⊢
      obtain ⟨hrest, herror⟩ :=
        ih (t := t') (hfirst.isReal h) fun n => (hfails n).congr hfirst.links
      refine ⟨.trans (hfirst.mono (fun l hl => hl) fun l hl => .inr ?_) hrest, herror⟩
      rw [hl]
      exact List.prefix_append _ _

variable {l : Location} (hl : t.IsReal l) (hfails : ∀ n, t.Fails n l [name])
include hl hfails

/-- No directory is made behind a link that is never left. -/
theorem attemptDirectories_of_fails (tail : List String) :
    Within (fun _ => False) (· <+: l) t
        (t.attemptDirectories [] ⟨.root, l ++ name :: tail⟩).tree ∧
      (t.attemptDirectories [] ⟨.root, l ++ name :: tail⟩).error?.isSome := by
  unfold attemptDirectories
  split
  · exact ⟨.refl _ _ t, rfl⟩
  · have hway : t.IsReal ([] ++ l) := hl
    exact makeAlong_of_fails hway hfails tail

/-- Nothing is written behind a link that is never left. -/
theorem exists_write_of_fails (tail : List String) (bytes : ByteArray) :
    ∃ e, t.write [] ⟨.root, l ++ name :: tail⟩ bytes = .error e := by
  obtain ⟨e, he⟩ := exists_place_of_fails hl hfails tail
  exact ⟨e, by rw [write, he]; rfl⟩

end DeadEnd

/-- **Putting a file at a dead end paves at most the way to the link that is never left.** -/
theorem IsDeadEnd.within_attemptFile {loc : Location} (h : t.IsDeadEnd loc) (bytes : ByteArray) :
    Within (fun _ => False) (fun l => l <+: loc ∧ t.IsReal l) t
      (t.attemptFile [] ⟨.root, loc⟩ bytes).tree := by
  obtain ⟨l, name, tail, rfl, hl, hfails⟩ := h
  have hpaved : ∀ m, m <+: l → m <+: l ++ name :: tail ∧ t.IsReal m := fun m hm =>
    ⟨hm.trans (List.prefix_append _ _), hl.mono hm⟩
  unfold attemptFile Path.parent
  rcases List.eq_nil_or_concat tail with rfl | ⟨front, last, rfl⟩
  · -- The link is the end of the way: the directories are made, and the file is not written.
    have hmade := within_attemptDirectories hl
    obtain ⟨e, he⟩ := exists_write_of_fails (hmade.isReal hl)
      (fun n => (hfails n).congr hmade.links) [] bytes
    simp only [List.dropLast_concat, he]
    split
    · exact hmade.mono (fun m hm => hm) fun m hm => .inr (hpaved m hm)
    · exact hmade.mono (fun m hm => hm) fun m hm => .inr (hpaved m hm)
  · -- The way goes on behind the link: the directories are not all made.
    have hway : (l ++ name :: front.concat last).dropLast = l ++ name :: front := by
      rw [List.concat_eq_append, ← List.cons_append, ← List.append_assoc, List.dropLast_concat]
    obtain ⟨hmade, herror⟩ := attemptDirectories_of_fails hl hfails front
    obtain ⟨e, he⟩ := Option.isSome_iff_exists.1 herror
    simp only [hway, he]
    exact hmade.mono (fun m hm => hm) fun m hm => .inr (hpaved m hm)

end FormScaffold.FileTree
