import FormScaffold.Proofs.Files.Resolving
import FormScaffold.Proofs.Text.Words
import FormScaffold.Sync.Run

/-! # Destinations

Without links, where a path leads does not depend on what stands in the tree. The destination of an
artifact is the location of the root, and the names of the artifact's path from there.

* **`resolve_eq`** — a path is resolved by its steps alone;
* `ofText_intercalate` — the steps of a path that is put together from names;
* `destination_eq_ok`, `isName_of_destination` — what the check of a destination ensures;
* `destination_of_resolves`, `destination_of_error` — destinations by what the paths are resolved
  to;
* **`destination_cases`** — the destination of an artifact, unless a path cannot name files. -/

namespace FormScaffold

/-! ## Resolving -/

/-- Where steps lead without links: steps upward are taken back. -/
def follow (loc : Location) (steps : List String) : Location :=
  steps.foldl (fun loc name =>
    if !Path.isStep name then loc else if name == ".." then loc.dropLast else loc ++ [name]) loc

/-- The first step leads to where the others go on. -/
theorem follow_cons (loc : Location) (name : String) (steps : List String) :
    follow loc (name :: steps) =
      follow (if !Path.isStep name then loc else if name == ".." then loc.dropLast
        else loc ++ [name]) steps := rfl

/-- Names lead on: they are what the location has more. -/
theorem follow_of_isName {steps : List String} (h : ∀ name ∈ steps, IsName name) (loc : Location) :
    follow loc steps = loc ++ steps := by
  induction steps generalizing loc with
  | nil => exact (List.append_nil loc).symm
  | cons name steps ih =>
    obtain ⟨hstep, hup⟩ := h name List.mem_cons_self
    rw [follow_cons, if_neg (by simpa using hstep), if_neg (by simpa using hup),
      ih fun m hm => h m (List.mem_cons_of_mem _ hm), List.append_assoc, List.singleton_append]

/-- Steps lead from names to names. -/
theorem isName_follow {loc : Location} (h : ∀ name ∈ loc, IsName name) (steps : List String) :
    ∀ name ∈ follow loc steps, IsName name := by
  induction steps generalizing loc with
  | nil => exact h
  | cons name steps ih =>
    rw [follow_cons]
    refine ih fun m hm => ?_
    by_cases hstep : Path.isStep name = true
    · rw [if_neg (by simpa using hstep)] at hm
      by_cases hup : name = ".."
      · rw [if_pos (by simpa using hup)] at hm
        exact h m ((List.dropLast_sublist loc).subset hm)
      · rw [if_neg (by simpa using hup), List.mem_append, List.mem_singleton] at hm
        rcases hm with hm | rfl
        · exact h m hm
        · exact ⟨hstep, hup⟩
    · rw [if_pos (by simpa using hstep)] at hm
      exact h m hm

namespace FileTree

/-- A piece that leads nowhere else can name files: it is empty or a dot. -/
theorem textFlaw?_of_not_isStep {piece : String} (h : (!Path.isStep piece) = true) :
    textFlaw? piece = none := by
  have hpiece : piece = "" ∨ piece = "." := by
    by_contra hnot
    rw [not_or] at hnot
    simp [Path.isStep, hnot] at h
  rcases hpiece with rfl | rfl
  · decide
  · decide

/-- Without links steps are resolved to the end, unless there is one that cannot name files: then
the first one of them is found. -/
theorem resolveSteps_eq {t : FileTree} (h : Contents.IsSimple t.item?) (depth : Nat)
    (opened : List Location) (loc : Location) (steps : List String) :
    t.resolveSteps depth opened loc steps =
      match steps.findSome? textFlaw? with
      | some e => .faulty e
      | none => .full (follow loc steps) := by
  induction steps generalizing loc with
  | nil => rw [resolveSteps]; rfl
  | cons name steps ih =>
    rw [resolveSteps, follow_cons, List.findSome?_cons]
    by_cases hpiece : (!Path.isStep name) = true
    · rw [if_pos hpiece, if_pos hpiece, ih, textFlaw?_of_not_isStep hpiece]
    · rw [if_neg hpiece, if_neg hpiece]
      by_cases hup : (name == "..") = true
      · have hclean : textFlaw? ".." = none := by decide
        rw [if_pos hup, if_pos hup, ih, beq_iff_eq.1 hup, hclean]
      · rw [if_neg hup, if_neg hup]
        -- A name stands for itself where there are no links, as long as the file system takes its
        -- text.
        cases hflaw : textFlaw? name with
        | some e => rfl
        | none =>
          dsimp only
          split
          · rename_i target hlink
            exact absurd hlink (h.linkless _ _)
          · exact ih _

/-- **Without links a path is resolved by its steps alone.** It is refused when one of its steps
cannot name files, or when the text of what it leads to cannot. -/
theorem resolve_eq {t : FileTree} (h : Contents.IsSimple t.item?) (current : Location) (p : Path) :
    t.resolve current p =
      match p.steps.findSome? textFlaw? with
      | some e => .error e
      | none =>
        match textFlaw? (⟨.root, follow (p.start current) p.steps⟩ : Path).text with
        | some e => .error e
        | none => .ok ⟨.root, follow (p.start current) p.steps⟩ := by
  unfold resolve
  rw [resolveSteps_eq h]
  cases p.steps.findSome? textFlaw? with
  | some e => rfl
  | none =>
    dsimp only
    cases htext : textFlaw? (⟨.root, follow (p.start current) p.steps⟩ : Path).text with
    | some e => exact checkResolved_of_textFlaw? htext
    | none => exact checkResolved_eq_ok.2 ⟨rfl, place_ne_linkLoop h _ _, htext⟩

/-- What a path resolves to without links, when it is not refused. -/
theorem eq_of_resolve {t : FileTree} (h : Contents.IsSimple t.item?) {current : Location}
    {p q : Path} (hq : t.resolve current p = .ok q) :
    q = ⟨.root, follow (p.start current) p.steps⟩ ∧ ∀ name ∈ p.steps, textFlaw? name = none := by
  rw [resolve_eq h] at hq
  cases hsteps : p.steps.findSome? textFlaw? with
  | some e =>
    rw [hsteps] at hq
    exact absurd hq (by simp)
  | none =>
    rw [hsteps] at hq
    dsimp only at hq
    split at hq
    · exact absurd hq (by simp)
    · exact ⟨(Except.ok.inj hq).symm, List.findSome?_eq_none_iff.1 hsteps⟩

/-- A path whose steps can name files is resolved, when the names it starts behind can as well. -/
theorem resolve_of_clean {t : FileTree} (h : Contents.IsSimple t.item?) {current : Location}
    {p : Path} (hsteps : ∀ name ∈ p.steps, textFlaw? name = none)
    (hplace : textFlaw? (⟨.root, follow (p.start current) p.steps⟩ : Path).text = none) :
    t.resolve current p = .ok ⟨.root, follow (p.start current) p.steps⟩ := by
  rw [resolve_eq h, List.findSome?_eq_none_iff.2 hsteps]
  dsimp only
  rw [hplace]

end FileTree

/-! ## Paths from names -/

/-- Names with slashes between them, as characters. -/
theorem toList_intercalate_slash (names : List String) :
    ("/".intercalate names).toList = ['/'].intercalate (names.map String.toList) := by
  rw [String.toList_intercalate]
  rfl

/-- What names between slashes are taken apart into. -/
theorem pieces_intercalate {names : List String} (h : ∀ name ∈ names, '/' ∉ name.toList)
    (hne : names ≠ []) : Path.pieces ("/".intercalate names) = names := by
  have hsplit : (['/'].intercalate (names.map String.toList)).splitOn '/' =
      names.map String.toList := by
    refine List.splitOn_intercalate '/' ?_ (by simpa using hne)
    intro l hl
    obtain ⟨name, hname, rfl⟩ := List.mem_map.1 hl
    exact h name hname
  rw [Path.pieces, toList_intercalate_slash, hsplit, List.map_map]
  exact (List.map_congr_left fun name _ => String.ofList_toList).trans (List.map_id _)

/-- The path of names between slashes has the names as its steps, those that lead nowhere left
out. -/
theorem ofText_intercalate {names : List String} (h : ∀ name ∈ names, '/' ∉ name.toList)
    (hhead : ∀ name ∈ names.head?, name ≠ "") :
    Path.ofText ("/".intercalate names) = ⟨.here, names.filter Path.isStep⟩ := by
  have hslashes : ("/".intercalate names).toList.takeWhile (· == '/') = [] := by
    cases names with
    | nil => rfl
    | cons name names =>
      -- The first name is not empty and has no slash, so that the path starts with neither.
      have hfirst : ∀ c ∈ name.toList.head?, c ≠ '/' := by
        rintro c hc rfl
        exact h name List.mem_cons_self (List.mem_of_mem_head? hc)
      cases hname : name.toList with
      | nil => exact absurd (String.toList_inj.1 (hname.trans rfl)) (hhead name rfl)
      | cons c cs =>
        rw [hname] at hfirst
        have hc : (c == '/') = false := beq_eq_false_iff_ne.2 (hfirst c rfl)
        rw [toList_intercalate_slash, List.map_cons, hname]
        cases names with
        | nil => simp [hc]
        | cons m ms => simp [hc]
  have hanchor : Path.anchorOf ("/".intercalate names).toList = .here := by
    rw [Path.anchorOf, hslashes]
    rfl
  rw [Path.ofText, hanchor]
  by_cases hnil : names = []
  · rw [hnil]
    rfl
  · rw [pieces_intercalate h hnil]

namespace Sync

/-- The path of a location starts at the root. -/
@[simp] theorem anchor_pathOf (loc : Location) : (pathOf loc).anchor = .root := rfl

/-- The path of a location leads on by its names. -/
@[simp] theorem steps_pathOf (loc : Location) : (pathOf loc).steps = loc := rfl

/-- The location of the root of a sync. -/
def base (o : Options) : Location := follow (o.root.start o.current) o.root.steps

variable {o : Options}

/-- Without links the destination does not depend on the tree. -/
theorem destination_congr {t t' : FileTree} (h : Contents.IsSimple t.item?)
    (h' : Contents.IsSimple t'.item?) (path : String) :
    destination t o path = destination t' o path := by
  unfold destination
  simp only [FileTree.resolve_eq h, FileTree.resolve_eq h']

/-- **The destination of an artifact lies strictly below the root**: both are resolved, to paths
that start alike, and the steps of the one are the first steps of the other. -/
theorem destination_eq_ok {t : FileTree} {path : String} {loc : Location}
    (h : destination t o path = .ok loc) :
    ∃ root target, t.resolve o.current o.root = .ok root ∧
      t.resolve o.current (root.join path) = .ok target ∧ target.steps = loc ∧
      root.steps <+: loc ∧ loc ≠ root.steps := by
  unfold destination at h
  cases hroot : t.resolve o.current o.root with
  | error e =>
    rw [hroot] at h
    exact absurd h (by simp [Except.mapError, bind, Except.bind])
  | ok root =>
    rw [hroot] at h
    cases htarget : t.resolve o.current (root.join path) with
    | error e => exact absurd h (by simp [htarget, Except.mapError, bind, Except.bind])
    | ok target =>
      refine ⟨root, target, rfl, htarget, ?_⟩
      simp only [htarget, Except.mapError, bind, Except.bind] at h
      split at h
      · exact absurd h (by simp)
      · split at h
        · exact absurd h (by simp)
        · -- Both refusals have been passed: the target is inside of the root, and is not the root.
          rename_i hinside hother
          obtain rfl : target.steps = loc := Except.ok.inj h
          rw [Bool.or_eq_true, not_or] at hinside
          exact ⟨rfl, by simpa using hinside.2, by simpa using hother⟩

/-- Paths start at names. -/
theorem isName_start (ho : ∀ name ∈ o.current, IsName name) (p : Path) :
    ∀ name ∈ p.start o.current, IsName name := by
  intro name hname
  unfold Path.start at hname
  split at hname
  · exact ho name hname
  · simp at hname

/-- The names of the root's location. -/
theorem isName_base (ho : ∀ name ∈ o.current, IsName name) : ∀ name ∈ base o, IsName name :=
  isName_follow (isName_start ho _) _

/-- Names lead to a destination, which is not the top of the tree. -/
theorem isName_of_destination {t : FileTree} (h : Contents.IsSimple t.item?)
    (ho : ∀ name ∈ o.current, IsName name) {path : String} {loc : Location}
    (hplace : destination t o path = .ok loc) : (∀ name ∈ loc, IsName name) ∧ loc ≠ [] := by
  obtain ⟨root, target, -, htarget, rfl, hinside, hother⟩ := destination_eq_ok hplace
  refine ⟨?_, fun hnil => ?_⟩
  · rw [(FileTree.eq_of_resolve h htarget).1]
    exact isName_follow (isName_start ho _) _
  · rw [hnil] at hinside hother
    exact hother (List.prefix_nil.1 hinside).symm

/-- The path of a destination can name files, since it was resolved. -/
theorem textFlaw?_of_destination {t : FileTree} {path : String} {loc : Location}
    (hplace : destination t o path = .ok loc) : textFlaw? (pathOf loc).text = none := by
  obtain ⟨root, target, -, htarget, rfl, -, -⟩ := destination_eq_ok hplace
  have htext : textFlaw? target.text = none := (FileTree.resolve_eq_ok.1 htarget).2.2.2
  exact (Path.textFlaw?_text _).2 ((Path.textFlaw?_text target).1 htext)

/-! ## Relative paths -/

section Resolved

variable {t : FileTree} {path : String} {steps : List String}

/-- The names of a relative path lead on from a root. -/
theorem join_pathOf (hpath : Path.ofText path = ⟨.here, steps⟩) (root : Location) :
    (pathOf root).join path = pathOf (root ++ steps) := by
  rw [Path.join, hpath]
  rfl

/-- There is no destination below a root that is not resolved. -/
theorem destination_of_root_error {e : PathError} (h : t.resolve o.current o.root = .error e)
    (path : String) : destination t o path = .error (.path e) := by
  simp only [destination, h, Except.mapError, bind, Except.bind]

variable {root : Location} (hroot : t.resolve o.current o.root = .ok (pathOf root))
  (hpath : Path.ofText path = ⟨.here, steps⟩)
include hroot hpath

/-- A path that is not resolved leads nowhere. -/
theorem destination_of_error {e : PathError}
    (h : t.resolve o.current (pathOf (root ++ steps)) = .error e) :
    destination t o path = .error (.path e) := by
  simp only [destination, hroot, join_pathOf hpath, h, Except.mapError, bind, Except.bind]

/-- An artifact goes below the root, when its place there is resolved as it is. -/
theorem destination_of_resolves (hne : steps ≠ [])
    (htarget : t.resolve o.current (pathOf (root ++ steps)) = .ok (pathOf (root ++ steps))) :
    destination t o path = .ok (root ++ steps) := by
  have hinside : root.isPrefixOf (root ++ steps) = true :=
    List.isPrefixOf_iff_prefix.2 (List.prefix_append _ _)
  have hother : (root ++ steps == root) = false := by simpa using hne
  simp only [destination, hroot, join_pathOf hpath, htarget, Except.mapError, bind, Except.bind,
    anchor_pathOf, steps_pathOf, bne_self_eq_false, hinside, hother, Bool.not_true, Bool.or_false,
    Bool.false_eq_true, if_false, pure, Except.pure]

end Resolved

section Relative

variable {t : FileTree} (h : Contents.IsSimple t.item?) (ho : ∀ name ∈ o.current, IsName name)
  {path : String} {steps : List String} (hpath : Path.ofText path = ⟨.here, steps⟩)

include ho in
/-- The names of an artifact's path lead on from the root. -/
theorem follow_base (hsteps : ∀ name ∈ steps, IsName name) :
    follow (Path.start ⟨.root, base o ++ steps⟩ o.current) (base o ++ steps) = base o ++ steps := by
  refine follow_of_isName ?_ []
  rw [List.forall_mem_append]
  exact ⟨isName_base ho, hsteps⟩

include h ho

/-- A place below the root is resolved as it is when it can name files. -/
theorem resolve_place (hsteps : ∀ name ∈ steps, IsName name)
    (hplace : textFlaw? (pathOf (base o ++ steps)).text = none) :
    t.resolve o.current (pathOf (base o ++ steps)) = .ok (pathOf (base o ++ steps)) := by
  have hfollow := follow_base ho hsteps
  have hclean := (Path.textFlaw?_text _).1 hplace
  refine (FileTree.resolve_of_clean h hclean (hfollow.symm ▸ hplace)).trans ?_
  exact congrArg (fun loc => Except.ok (pathOf loc)) hfollow

include hpath

/-- Where an artifact goes, when the steps of the root and the place of the artifact can name
files. -/
theorem destination_of_resolve (hsteps : ∀ name ∈ steps, IsName name) (hne : steps ≠ [])
    (hroot : ∀ name ∈ o.root.steps, textFlaw? name = none)
    (hplace : textFlaw? (pathOf (base o ++ steps)).text = none) :
    destination t o path = .ok (base o ++ steps) := by
  have hbase : textFlaw? (⟨.root, base o⟩ : Path).text = none := by
    rw [Path.textFlaw?_text]
    exact fun name hname => (Path.textFlaw?_text _).1 hplace name (List.mem_append_left _ hname)
  exact destination_of_resolves (FileTree.resolve_of_clean h hroot hbase) hpath hne
    (resolve_place h ho hsteps hplace)

/-- **Where an artifact goes**: below the root, by the names of its path. When a name cannot name
files, the path leads nowhere. -/
theorem destination_cases (hsteps : ∀ name ∈ steps, IsName name) (hne : steps ≠ []) :
    (∃ e, destination t o path = .error (.path e)) ∨
      destination t o path = .ok (base o ++ steps) := by
  cases hroot : t.resolve o.current o.root with
  | error e => exact .inl ⟨e, destination_of_root_error hroot path⟩
  | ok root =>
    obtain ⟨rfl, hclean⟩ := FileTree.eq_of_resolve h hroot
    cases htarget : t.resolve o.current (pathOf (base o ++ steps)) with
    | error e => exact .inl ⟨e, destination_of_error hroot hpath htarget⟩
    | ok target =>
      have htext : textFlaw? (pathOf (base o ++ steps)).text = none := by
        rw [pathOf, Path.textFlaw?_text]
        exact (FileTree.eq_of_resolve h htarget).2
      exact .inr (destination_of_resolve h ho hpath hsteps hne hclean htext)

end Relative

end Sync

end FormScaffold
