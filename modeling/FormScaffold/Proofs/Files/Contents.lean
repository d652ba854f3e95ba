import FormScaffold.Files.Tree
import Mathlib.Data.List.Induction
import Mathlib.Logic.Function.Basic
import Mathlib.Tactic.ByContra

/-! # What a tree holds

Two trees with the same items at all locations differ only in the order of their items. What can be
said of a tree is said of the items at its locations:

* **`Contents.IsSimple`** — no links, and everything stands in a directory;
* `FileTree.Agrees` — two trees hold the same;
* `Contents.IsBlocked` — a file stands on the way to a location;
* **`Contents.paved`** — all that is on the way to a location, and the location, made directories;
* `IsSimple.paved`, `IsSimple.update` — this leaves the contents simple, and so does a new file. -/

namespace FormScaffold

/-- What stands at each location. -/
abbrev Contents := Location → Option Item

namespace Contents

/-- Contents without links, where everything stands in a directory. -/
structure IsSimple (f : Contents) : Prop where
  root : f [] = some .directory
  linkless : ∀ loc target, f loc ≠ some (.link target)
  grounded : ∀ loc name, f (loc ++ [name]) ≠ none → f loc = some .directory

/-- The tree of the root alone is simple. -/
theorem isSimple_empty : IsSimple FileTree.empty.item? := by
  have hnone : ∀ loc, loc ≠ [] → FileTree.empty.item? loc = none := fun loc hloc => if_neg hloc
  refine ⟨rfl, fun loc target => ?_, fun loc name h => absurd (hnone _ (by simp)) h⟩
  by_cases hloc : loc = []
  · rw [hloc]
    simp
  · rw [hnone loc hloc]
    simp

/-- A file stands on the way to the location. -/
def IsBlocked (f : Contents) (loc : Location) : Prop :=
  ∃ above bytes, above <+: loc ∧ above ≠ loc ∧ f above = some (.file bytes)

/-- In the tree of the root alone nothing is blocked. -/
theorem not_isBlocked_empty (loc : Location) : ¬IsBlocked FileTree.empty.item? loc := by
  rintro ⟨above, bytes, -, -, hfile⟩
  by_cases habove : above = []
  · rw [habove] at hfile
    exact absurd hfile (by simp)
  · have hnone : FileTree.empty.item? above = none := if_neg habove
    rw [hnone] at hfile
    exact absurd hfile (by simp)

/-- The contents with directories all the way to a location, and there. -/
def paved (f : Contents) (loc : Location) : Contents :=
  fun l => if l <+: loc then some .directory else f l

/-- On a way that is paved there are directories. -/
theorem paved_onWay (f : Contents) {l loc : Location} (h : l <+: loc) :
    f.paved loc l = some .directory := if_pos h

/-- Elsewhere paving changes nothing. -/
theorem paved_offWay (f : Contents) {l loc : Location} (h : ¬l <+: loc) :
    f.paved loc l = f l := if_neg h

/-- Where a file stands after the paving one stood before. -/
theorem eq_file_of_paved {f : Contents} {loc l : Location} {bytes : ByteArray}
    (hfile : f.paved loc l = some (.file bytes)) : f l = some (.file bytes) := by
  by_cases hway : l <+: loc
  · rw [paved_onWay f hway] at hfile
    exact absurd hfile (by simp)
  · rwa [paved_offWay f hway] at hfile

/-- A way is paved in one go or in two. -/
theorem paved_paved (f : Contents) {loc loc' : Location} (h : loc <+: loc') :
    (f.paved loc).paved loc' = f.paved loc' := by
  funext l
  by_cases hl : l <+: loc'
  · rw [paved_onWay _ hl, paved_onWay _ hl]
  · rw [paved_offWay _ hl, paved_offWay _ hl, paved_offWay _ fun hp => hl (hp.trans h)]

/-- Paving a free way to where nothing stands leaves the files. -/
theorem paved_eq_file_iff {f : Contents} {loc : Location} (hfree : ¬f.IsBlocked loc)
    (hnone : f loc = none) (l : Location) (bytes : ByteArray) :
    f.paved loc l = some (.file bytes) ↔ f l = some (.file bytes) := by
  by_cases hway : l <+: loc
  · rw [paved_onWay _ hway]
    refine iff_of_false (by simp) fun hfile => ?_
    by_cases heq : l = loc
    · rw [heq, hnone] at hfile
      exact absurd hfile (by simp)
    · exact hfree ⟨l, bytes, hway, heq, hfile⟩
  · rw [paved_offWay _ hway]

/-- What is one step further on the way has a file on the way when there was one before, or when the
file is there. -/
theorem IsBlocked.mono {f : Contents} {loc loc' : Location} (h : f.IsBlocked loc)
    (hloc : loc <+: loc') : f.IsBlocked loc' := by
  obtain ⟨above, bytes, habove, hne, hfile⟩ := h
  refine ⟨above, bytes, habove.trans hloc, ?_, hfile⟩
  rintro rfl
  exact hne (habove.eq_of_length_le hloc.length_le)

/-- A location is blocked just when a file stands in place of a directory above it. -/
theorem isBlocked_concat {f : Contents} {loc : Location} {name : String} :
    f.IsBlocked (loc ++ [name]) ↔ ∃ above bytes, above <+: loc ∧ f above = some (.file bytes) := by
  constructor
  · rintro ⟨above, bytes, habove, hne, hfile⟩
    exact ⟨above, bytes, (List.prefix_concat_iff.1 habove).resolve_left hne, hfile⟩
  · rintro ⟨above, bytes, habove, hfile⟩
    refine ⟨above, bytes, habove.trans (List.prefix_append _ _), ?_, hfile⟩
    rintro rfl
    have hlength := habove.length_le
    rw [List.length_append, List.length_singleton] at hlength
    omega

/-- A file stands on the way to all that is behind it. -/
theorem isBlocked_of_file {f : Contents} {above : Location} {bytes : ByteArray}
    (h : f above = some (.file bytes)) (name : String) (rest : Location) :
    f.IsBlocked (above ++ name :: rest) :=
  ⟨above, bytes, List.prefix_append _ _, by simp, h⟩

/-- A location is the same in both contents: what stands there, and whether a file stands on the
way. -/
structure SameAt (f g : Contents) (loc : Location) : Prop where
  item : f loc = g loc
  isBlocked : f.IsBlocked loc ↔ g.IsBlocked loc

/-- Contents are the same as themselves at every location. -/
theorem SameAt.refl (f : Contents) (loc : Location) : f.SameAt f loc := ⟨rfl, Iff.rfl⟩

/-- Contents that are the same as others, and these as third ones, are the same as the third. -/
theorem SameAt.trans {f g k : Contents} {loc : Location} (h : f.SameAt g loc)
    (h' : g.SameAt k loc) : f.SameAt k loc :=
  ⟨h.item.trans h'.item, h.isBlocked.trans h'.isBlocked⟩

namespace IsSimple

variable {f : Contents} (h : f.IsSimple)
include h

/-- All that is on the way to something is a directory. -/
theorem directory_onWay {l loc : Location} (hinit : l <+: loc) (hne : l ≠ loc)
    (hloc : f loc ≠ none) : f l = some .directory := by
  obtain ⟨steps, rfl⟩ := hinit
  induction steps using List.reverseRecOn with
  | nil => exact absurd (List.append_nil l).symm hne
  | append_singleton steps name ih =>
    rw [← List.append_assoc] at hloc
    have hdirectory := h.grounded _ _ hloc
    by_cases hsteps : steps = []
    · rwa [hsteps, List.append_nil] at hdirectory
    · exact ih (by simpa using hsteps) (by rw [hdirectory]; exact Option.some_ne_none _)

/-- Nothing is on the way to something but directories. -/
theorem not_isBlocked {loc : Location} (hloc : f loc ≠ none) : ¬f.IsBlocked loc := by
  rintro ⟨above, bytes, habove, hne, hfile⟩
  rw [h.directory_onWay habove hne hloc] at hfile
  exact absurd hfile (by simp)

/-- What stands on the way when no file does. -/
theorem directory_or_none {l loc : Location} (hfree : ¬f.IsBlocked loc) (hinit : l <+: loc)
    (hne : l ≠ loc) : f l = some .directory ∨ f l = none := by
  cases hl : f l with
  | none => exact .inr rfl
  | some item =>
    cases item with
    | directory => exact .inl rfl
    | file bytes => exact absurd ⟨l, bytes, hinit, hne, hl⟩ hfree
    | link target => exact absurd hl (h.linkless l target)

/-- Nothing in a directory is blocked. -/
theorem not_isBlocked_concat {loc : Location} (hloc : f loc = some .directory) (name : String) :
    ¬f.IsBlocked (loc ++ [name]) := by
  intro hblocked
  obtain ⟨l, bytes, hl, hfile⟩ := isBlocked_concat.1 hblocked
  by_cases heq : l = loc
  · rw [heq, hloc] at hfile
    exact absurd hfile (by simp)
  · exact h.not_isBlocked (by rw [hloc]; simp) ⟨l, bytes, hl, heq, hfile⟩

/-- Where nothing stands, no file stands on the way to what is below, but above. -/
theorem isBlocked_iff_of_none {above loc : Location} (hle : above <+: loc)
    (hnone : f above = none) : f.IsBlocked loc ↔ f.IsBlocked above := by
  refine ⟨?_, fun hblocked => hblocked.mono hle⟩
  rintro ⟨l, bytes, hl, -, hfile⟩
  have hother : l ≠ above := by
    rintro rfl
    rw [hnone] at hfile
    exact absurd hfile (by simp)
  rcases List.prefix_or_prefix_of_prefix hl hle with hfront | hbehind
  · exact ⟨l, bytes, hfront, hother, hfile⟩
  · have hdirectory := h.directory_onWay hbehind hother.symm (by rw [hfile]; simp)
    rw [hnone] at hdirectory
    exact absurd hdirectory (by simp)

/-- **Contents stay simple when a way is paved.** Directories are all that is put, and each of them
stands in one. -/
theorem paved (loc : Location) : (f.paved loc).IsSimple where
  root := paved_onWay f List.nil_prefix
  linkless l target := by
    by_cases hl : l <+: loc
    · rw [paved_onWay f hl]
      simp
    · rw [paved_offWay f hl]
      exact h.linkless l target
  grounded l name hname := by
    by_cases hl : l <+: loc
    · exact paved_onWay f hl
    · have hlong : ¬l ++ [name] <+: loc := fun hp => hl ((List.prefix_append _ _).trans hp)
      rw [paved_offWay f hlong] at hname
      rw [paved_offWay f hl]
      exact h.grounded l name hname

/-- Nothing changes when the location is a directory. -/
theorem paved_of_directory {loc : Location} (hloc : f loc = some .directory) :
    f.paved loc = f := by
  funext l
  by_cases hl : l <+: loc
  · rw [paved_onWay f hl]
    by_cases hne : l = loc
    · rw [hne, hloc]
    · exact (h.directory_onWay hl hne (by rw [hloc]; exact Option.some_ne_none _)).symm
  · exact paved_offWay f hl

/-- A way is paved step by step. -/
theorem paved_concat {loc : Location} (name : String) (hloc : f loc = some .directory) :
    f.paved (loc ++ [name]) = Function.update f (loc ++ [name]) (some .directory) := by
  funext l
  by_cases hl : l = loc ++ [name]
  · rw [hl, Function.update_self, paved_onWay f List.prefix_rfl]
  · rw [Function.update_of_ne hl]
    by_cases hinit : l <+: loc
    · rw [paved_onWay f (hinit.trans (List.prefix_append _ _))]
      have := congrFun (h.paved_of_directory hloc) l
      rwa [paved_onWay f hinit] at this
    · refine paved_offWay f fun hp => ?_
      exact hinit ((List.prefix_concat_iff.1 hp).resolve_left hl)

/-- Contents stay simple when a directory or a file is put where nothing stands in a directory. -/
theorem update {loc : Location} {name : String} (hloc : f loc = some .directory)
    (hfree : f (loc ++ [name]) = none) {item : Item} (hitem : ∀ target, item ≠ .link target) :
    IsSimple (Function.update f (loc ++ [name]) (some item)) where
  root := by rw [Function.update_of_ne (by simp), h.root]
  linkless l target := by
    by_cases hl : l = loc ++ [name]
    · rw [hl, Function.update_self]
      exact fun heq => hitem target (Option.some.inj heq)
    · rw [Function.update_of_ne hl]
      exact h.linkless l target
  grounded l m hm := by
    by_cases hl : l ++ [m] = loc ++ [name]
    · obtain rfl : l = loc := (List.append_inj' hl rfl).1
      rwa [Function.update_of_ne (by simp)]
    · rw [Function.update_of_ne hl] at hm
      have hdirectory := h.grounded l m hm
      rw [Function.update_of_ne, hdirectory]
      rintro rfl
      rw [hfree] at hdirectory
      exact absurd hdirectory (by simp)

end IsSimple

end Contents

namespace FileTree

/-- The same stands at every location. -/
def Agrees (t t' : FileTree) : Prop := ∀ loc, t.item? loc = t'.item? loc

/-- A directory is found where one stands. -/
theorem isDirectory_iff {t : FileTree} {loc : Location} :
    t.isDirectory loc = true ↔ t.item? loc = some .directory := by
  unfold isDirectory
  cases t.item? loc with
  | none => simp
  | some item => cases item <;> simp [Item.isDirectory]

/-- An item that is put somewhere below the root. -/
theorem item?_put_eq (t : FileTree) {loc : Location} (h : loc ≠ []) (item : Item) :
    (t.put loc item).item? = Function.update t.item? loc (some item) := by
  funext l
  rw [item?_put t h]
  by_cases hl : l = loc
  · rw [if_pos hl, hl, Function.update_self]
  · rw [if_neg hl, Function.update_of_ne hl]

end FileTree

end FormScaffold
