import FormScaffold.Proofs.Files.Contents
import Mathlib.Data.List.Forall2

/-! # Renewing files

What syncing an artifact makes of the contents of a tree, apart from how it is done: unless a file
stands on the way, the way is paved, and at its end a file is created or filled anew.

* **`Renewal.apply`** — one renewal;
* `isSimple_apply` — it leaves simple contents simple;
* `Renewal.upTo` — a renewal that does not get to its place, but only a part of the way;
* `upTo_comm`, `apply_comm` — renewals at places of which none is on the way to the other can be
  swapped;
* `apply_apply` — a renewal after one that it supersedes is that renewal alone;
* **`renew_renew`** — so it is with many renewals, in their order. -/

namespace FormScaffold.Sync

/-- A file to be created or filled anew. -/
structure Renewal where
  loc : Location
  /-- The file, where nothing stands. -/
  created : ByteArray
  /-- The file in place of one that is there. -/
  refill : ByteArray → ByteArray

namespace Renewal

/-- What stands at the place afterwards. -/
def item (r : Renewal) : Option Item → Item
  | none => .file r.created
  | some (.file bytes) => .file (r.refill bytes)
  | some other => other

open scoped Classical in
/-- The contents after a renewal. -/
noncomputable def apply (r : Renewal) (f : Contents) : Contents :=
  if f.IsBlocked r.loc then f
  else Function.update (f.paved r.loc) r.loc (some (r.item (f r.loc)))

/-- Neither is on the way to the other. -/
def Apart (r s : Renewal) : Prop := ¬r.loc <+: s.loc ∧ ¬s.loc <+: r.loc

/-- Being apart goes both ways. -/
theorem Apart.symm {r s : Renewal} (h : r.Apart s) : s.Apart r := ⟨h.2, h.1⟩

instance : Std.Symm Apart := ⟨fun _ _ h => h.symm⟩

/-- What the first leaves is to the second as what it found. -/
structure Supersedes (s r : Renewal) : Prop where
  loc : s.loc = r.loc
  created : s.refill r.created = s.created
  refill : ∀ bytes, s.refill (r.refill bytes) = s.refill bytes

variable {r s : Renewal} {f : Contents}

/-! ## Values -/

/-- A renewal that is blocked changes nothing. -/
theorem apply_of_blocked (h : f.IsBlocked r.loc) : r.apply f = f := if_pos h

/-- A renewal that is free makes directories on its way and puts its file at the end. -/
theorem apply_of_free (h : ¬f.IsBlocked r.loc) :
    r.apply f = Function.update (f.paved r.loc) r.loc (some (r.item (f r.loc))) := if_neg h

/-- A free renewal leaves its file at its location. -/
theorem apply_loc (h : ¬f.IsBlocked r.loc) : r.apply f r.loc = some (r.item (f r.loc)) := by
  rw [apply_of_free h, Function.update_self]

/-- A free renewal leaves directories on its way. -/
theorem apply_onWay (h : ¬f.IsBlocked r.loc) {l : Location} (hl : l <+: r.loc)
    (hne : l ≠ r.loc) : r.apply f l = some .directory := by
  rw [apply_of_free h, Function.update_of_ne hne, Contents.paved_onWay f hl]

/-- What is not on the way stays. -/
theorem apply_offWay {l : Location} (hl : ¬l <+: r.loc) : r.apply f l = f l := by
  by_cases h : f.IsBlocked r.loc
  · rw [apply_of_blocked h]
  · have hne : l ≠ r.loc := fun heq => hl (heq ▸ List.prefix_rfl)
    rw [apply_of_free h, Function.update_of_ne hne, Contents.paved_offWay f hl]

/-- Directories stay. -/
theorem apply_directory {l : Location} (h : f l = some .directory) :
    r.apply f l = some .directory := by
  by_cases hblocked : f.IsBlocked r.loc
  · rwa [apply_of_blocked hblocked]
  · by_cases hl : l = r.loc
    · rw [hl, apply_loc hblocked, ← hl, h]
      rfl
    · by_cases hp : l <+: r.loc
      · exact apply_onWay hblocked hp hl
      · rw [apply_offWay hp, h]

/-- A file on the way to a place other than that of the renewal was there before, and stays. -/
theorem apply_eq_file_iff {l : Location} (hne : l ≠ r.loc) {bytes : ByteArray} :
    r.apply f l = some (.file bytes) ↔ f l = some (.file bytes) := by
  by_cases h : f.IsBlocked r.loc
  · rw [apply_of_blocked h]
  · by_cases hl : l <+: r.loc
    · rw [apply_onWay h hl hne]
      constructor
      · intro hfile
        exact absurd hfile (by simp)
      · intro hfile
        exact absurd ⟨l, bytes, hl, hne, hfile⟩ h
    · rw [apply_offWay hl]

/-- **What is blocked stays blocked, and what is free stays free**, where the place of the renewal
is not on the way. -/
theorem isBlocked_apply {loc : Location} (h : r.loc <+: loc → r.loc = loc) :
    (r.apply f).IsBlocked loc ↔ f.IsBlocked loc := by
  have hfile : ∀ above bytes, above <+: loc → above ≠ loc →
      (r.apply f above = some (.file bytes) ↔ f above = some (.file bytes)) := by
    intro above bytes habove hne
    refine apply_eq_file_iff ?_
    rintro rfl
    exact hne (h habove)
  constructor
  · rintro ⟨above, bytes, habove, hne, hb⟩
    exact ⟨above, bytes, habove, hne, (hfile above bytes habove hne).1 hb⟩
  · rintro ⟨above, bytes, habove, hne, hb⟩
    exact ⟨above, bytes, habove, hne, (hfile above bytes habove hne).2 hb⟩

/-- A renewal leaves the places of those that are apart from it. -/
theorem Apart.sameAt (h : r.Apart s) (f : Contents) : (r.apply f).SameAt f s.loc :=
  ⟨apply_offWay h.2, isBlocked_apply fun hp => absurd hp h.1⟩

/-- Where nothing but a link is left alone, there are no new links. -/
theorem item_ne_link {x : Option Item} {target : String} (h : x ≠ some (.link target)) :
    r.item x ≠ .link target := by
  cases x with
  | none => simp [item]
  | some old =>
    cases old with
    | directory => simp [item]
    | file bytes => simp [item]
    | link other => simpa [item] using h

/-- **Simple contents stay simple.** What is put on the way are directories, and at its end stands a
file in one of them. -/
theorem isSimple_apply (hf : f.IsSimple) (hloc : r.loc ≠ []) : (r.apply f).IsSimple := by
  by_cases h : f.IsBlocked r.loc
  · rwa [apply_of_blocked h]
  · refine ⟨?_, ?_, ?_⟩
    · exact apply_onWay h List.nil_prefix hloc.symm
    · intro l target
      by_cases hl : l = r.loc
      · rw [hl, apply_loc h]
        exact fun heq => item_ne_link (hf.linkless _ target) (Option.some.inj heq)
      · by_cases hp : l <+: r.loc
        · rw [apply_onWay h hp hl]
          simp
        · rw [apply_offWay hp]
          exact hf.linkless l target
    · intro l name hname
      by_cases hp : l <+: r.loc
      · by_cases hl : l = r.loc
        · -- Something stands below the place: there was a directory, and it stays.
          have hlong : ¬r.loc ++ [name] <+: r.loc := by
            intro hlong
            have hlength := hlong.length_le
            rw [List.length_append, List.length_singleton] at hlength
            omega
          rw [hl, apply_offWay hlong] at hname
          rw [hl, apply_loc h, hf.grounded _ _ hname]
          rfl
        · exact apply_onWay h hp hl
      · have hlong : ¬l ++ [name] <+: r.loc := fun hlong =>
          hp ((List.prefix_append _ _).trans hlong)
        rw [apply_offWay hlong] at hname
        rw [apply_offWay hp]
        exact hf.grounded l name hname

/-- Nothing changes where the renewal leaves what stands at its place. -/
theorem apply_eq_self (hf : f.IsSimple) (h : f r.loc = some (r.item (f r.loc))) :
    r.apply f = f := by
  have hne : f r.loc ≠ none := by
    rw [h]
    exact Option.some_ne_none _
  have hfree := hf.not_isBlocked hne
  funext l
  by_cases hl : l = r.loc
  · rw [hl, apply_loc hfree, ← h]
  · by_cases hp : l <+: r.loc
    · rw [apply_onWay hfree hp hl, hf.directory_onWay hp hl hne]
    · rw [apply_offWay hp]

/-! ## A renewal on a part of its way -/

/-- The contents after a renewal that goes no further than to a location on its way. -/
noncomputable def upTo (r : Renewal) (way : Location) (f : Contents) : Contents :=
  fun l => if l <+: way then r.apply f l else f l

/-- On the part of its way, the renewal is made. -/
theorem upTo_onWay {way l : Location} (hl : l <+: way) : r.upTo way f l = r.apply f l := if_pos hl

/-- Elsewhere it is not. -/
theorem upTo_offWay {way l : Location} (hl : ¬l <+: way) : r.upTo way f l = f l := if_neg hl

/-- A blocked renewal changes nothing on any part of its way. -/
theorem upTo_of_blocked {way : Location} (h : f.IsBlocked r.loc) : r.upTo way f = f := by
  funext l
  rw [upTo, apply_of_blocked h, ite_self]

/-- A renewal that goes all the way. -/
theorem upTo_loc (r : Renewal) (f : Contents) : r.upTo r.loc f = r.apply f := by
  funext l
  by_cases hl : l <+: r.loc
  · exact upTo_onWay hl
  · rw [upTo_offWay hl, apply_offWay hl]

/-- A renewal that goes only a part of its way paves it. -/
theorem upTo_eq_paved (h : ¬f.IsBlocked r.loc) {way : Location} (hway : way <+: r.loc)
    (hne : way ≠ r.loc) : r.upTo way f = f.paved way := by
  funext l
  by_cases hl : l <+: way
  · have hloc : l ≠ r.loc := by
      rintro rfl
      exact hne (hway.eq_of_length_le hl.length_le)
    rw [upTo_onWay hl, apply_onWay h (hl.trans hway) hloc, Contents.paved_onWay f hl]
  · rw [upTo_offWay hl, Contents.paved_offWay f hl]

/-- A renewal leaves the places of those that are apart from it, however far it goes. -/
theorem Apart.sameAt_upTo (h : r.Apart s) {way : Location} (hway : way <+: r.loc) (f : Contents) :
    (r.upTo way f).SameAt f s.loc := by
  refine ⟨upTo_offWay fun hs => h.2 (hs.trans hway), ?_⟩
  have hfile : ∀ above bytes, above <+: s.loc →
      (r.upTo way f above = some (.file bytes) ↔ f above = some (.file bytes)) := by
    intro above bytes habove
    by_cases hl : above <+: way
    · rw [upTo_onWay hl]
      exact apply_eq_file_iff fun heq => h.1 (heq ▸ habove)
    · rw [upTo_offWay hl]
  constructor
  · rintro ⟨above, bytes, habove, hne, hb⟩
    exact ⟨above, bytes, habove, hne, (hfile above bytes habove).1 hb⟩
  · rintro ⟨above, bytes, habove, hne, hb⟩
    exact ⟨above, bytes, habove, hne, (hfile above bytes habove).2 hb⟩

/-! ## Two renewals -/

/-- **Renewals that are apart can be swapped, however far they go.** Where their ways meet, both
make directories. -/
theorem upTo_comm (h : r.Apart s) {v w : Location} (hv : v <+: r.loc) (hw : w <+: s.loc) :
    r.upTo v (s.upTo w f) = s.upTo w (r.upTo v f) := by
  have hsame := h.symm.sameAt_upTo hw f
  have hsame' := h.sameAt_upTo hv f
  by_cases hr : f.IsBlocked r.loc
  · rw [upTo_of_blocked (hsame.isBlocked.2 hr), upTo_of_blocked hr]
  by_cases hs : f.IsBlocked s.loc
  · rw [upTo_of_blocked hs, upTo_of_blocked (hsame'.isBlocked.2 hs)]
  have hr' : ¬(s.upTo w f).IsBlocked r.loc := fun hb => hr (hsame.isBlocked.1 hb)
  have hs' : ¬(r.upTo v f).IsBlocked s.loc := fun hb => hs (hsame'.isBlocked.1 hb)
  funext l
  by_cases hlv : l <+: v
  · by_cases hlw : l <+: w
    · -- On both ways there is a directory.
      have hne : l ≠ r.loc := fun heq => h.1 (heq ▸ hlw.trans hw)
      have hne' : l ≠ s.loc := fun heq => h.2 (heq ▸ hlv.trans hv)
      rw [upTo_onWay hlv, apply_onWay hr' (hlv.trans hv) hne, upTo_onWay hlw,
        apply_onWay hs' (hlw.trans hw) hne']
    · rw [upTo_offWay hlw, upTo_onWay hlv, upTo_onWay hlv]
      by_cases hl : l = r.loc
      · rw [hl, apply_loc hr', apply_loc hr, hsame.item]
      · rw [apply_onWay hr' (hlv.trans hv) hl, apply_onWay hr (hlv.trans hv) hl]
  · rw [upTo_offWay hlv]
    by_cases hlw : l <+: w
    · rw [upTo_onWay hlw, upTo_onWay hlw]
      by_cases hl : l = s.loc
      · rw [hl, apply_loc hs, apply_loc hs', hsame'.item]
      · rw [apply_onWay hs (hlw.trans hw) hl, apply_onWay hs' (hlw.trans hw) hl]
    · rw [upTo_offWay hlw, upTo_offWay hlw, upTo_offWay hlv]

/-- **Renewals that are apart can be swapped.** This is the case in which both go to their ends. -/
theorem apply_comm (h : r.Apart s) : r.apply (s.apply f) = s.apply (r.apply f) := by
  rw [← upTo_loc, ← upTo_loc, upTo_comm h List.prefix_rfl List.prefix_rfl, upTo_loc, upTo_loc]

/-- What stands at the place is renewed as if it had not been renewed before. -/
theorem Supersedes.item_item (h : s.Supersedes r) (x : Option Item) :
    s.item (some (r.item x)) = s.item x := by
  cases x with
  | none => exact congrArg Item.file h.created
  | some old =>
    cases old with
    | directory => rfl
    | file bytes => exact congrArg Item.file (h.refill bytes)
    | link target => rfl

/-- **A renewal after one that it supersedes is that renewal alone.** The first has left a file that
the second fills as it would have filled what was there. -/
theorem apply_apply (h : s.Supersedes r) : s.apply (r.apply f) = s.apply f := by
  have hblocked : (r.apply f).IsBlocked s.loc ↔ f.IsBlocked s.loc :=
    isBlocked_apply fun _ => h.loc.symm
  by_cases hs : f.IsBlocked s.loc
  · rw [apply_of_blocked (hblocked.2 hs), apply_of_blocked hs, apply_of_blocked (h.loc ▸ hs)]
  · have hs' : ¬(r.apply f).IsBlocked s.loc := fun hb => hs (hblocked.1 hb)
    have hr : ¬f.IsBlocked r.loc := h.loc ▸ hs
    funext l
    by_cases hl : l = s.loc
    · subst hl
      rw [apply_loc hs', apply_loc hs, h.loc, apply_loc hr, h.item_item]
    · by_cases hp : l <+: s.loc
      · rw [apply_onWay hs' hp hl, apply_onWay hs hp hl]
      · rw [apply_offWay hp, apply_offWay hp, apply_offWay (h.loc ▸ hp)]

/-! ## Many renewals -/

/-- The contents after renewals, one after the other. -/
noncomputable def renew (rs : List Renewal) (f : Contents) : Contents :=
  rs.foldl (fun f r => r.apply f) f

/-- Renewals are made one after the other. -/
theorem renew_cons (r : Renewal) (rs : List Renewal) (f : Contents) :
    renew (r :: rs) f = renew rs (r.apply f) := rfl

/-- A renewal apart from all others can be made first. -/
theorem apply_renew {rs : List Renewal} (h : ∀ s ∈ rs, r.Apart s) (f : Contents) :
    r.apply (renew rs f) = renew rs (r.apply f) := by
  induction rs generalizing f with
  | nil => rfl
  | cons s rs ih =>
    have hrest := ih (fun q hq => h q (List.mem_cons_of_mem _ hq)) (s.apply f)
    rw [renew_cons, renew_cons, hrest, apply_comm (h s List.mem_cons_self)]

/-- Renewals keep contents simple as long as none is at the root. -/
theorem isSimple_renew {rs : List Renewal} (hf : f.IsSimple) (h : ∀ r ∈ rs, r.loc ≠ []) :
    (renew rs f).IsSimple := by
  induction rs generalizing f with
  | nil => exact hf
  | cons r rs ih =>
    exact ih (isSimple_apply hf (h r List.mem_cons_self))
      fun s hs => h s (List.mem_cons_of_mem _ hs)

/-- What is blocked stays blocked, and what is free stays free, through many renewals. -/
theorem isBlocked_renew {rs : List Renewal} {loc : Location}
    (h : ∀ r ∈ rs, r.loc <+: loc → r.loc = loc) (f : Contents) :
    (renew rs f).IsBlocked loc ↔ f.IsBlocked loc := by
  induction rs generalizing f with
  | nil => exact Iff.rfl
  | cons r rs ih =>
    have hrest := ih (fun s hs => h s (List.mem_cons_of_mem _ hs)) (r.apply f)
    exact hrest.trans (isBlocked_apply (h r List.mem_cons_self))

/-- Renewals apart from a location change nothing that matters there. -/
theorem sameAt_renew {rs : List Renewal} (h : ∀ s ∈ rs, s.Apart r) (f : Contents) :
    (renew rs f).SameAt f r.loc := by
  induction rs generalizing f with
  | nil => exact .refl f r.loc
  | cons s rs ih =>
    have hrest := ih (fun q hq => h q (List.mem_cons_of_mem _ hq)) (s.apply f)
    exact hrest.trans ((h s List.mem_cons_self).sameAt f)

/-- **At the place of one of many renewals it is as after that one alone.** The others are apart
from it, and make directories at most on its way. -/
theorem sameAt_renew_of_mem {rs : List Renewal} (hapart : rs.Pairwise Apart) (hr : r ∈ rs)
    (f : Contents) : (renew rs f).SameAt (r.apply f) r.loc := by
  induction rs generalizing f with
  | nil => exact absurd hr (by simp)
  | cons s rs ih =>
    obtain ⟨hs, hrs⟩ := List.pairwise_cons.1 hapart
    rw [renew_cons]
    rcases List.mem_cons.1 hr with rfl | hr
    · exact sameAt_renew (fun q hq => (hs q hq).symm) (r.apply f)
    · have hsame := (hs r hr).sameAt (r.apply f)
      rw [← apply_comm (hs r hr).symm] at hsame
      exact (ih hrs hr (s.apply f)).trans hsame

/-- **Renewals after those that they supersede are these renewals alone.** Each of them is followed
by one that supersedes it, and those that are apart do not matter. -/
theorem renew_renew {rs ss : List Renewal} (h : List.Forall₂ Supersedes ss rs)
    (hapart : rs.Pairwise Apart) (f : Contents) : renew ss (renew rs f) = renew ss f := by
  induction h generalizing f with
  | nil => rfl
  | @cons s r ss rs hsr _ ih =>
    obtain ⟨hr, hrs⟩ := List.pairwise_cons.1 hapart
    have hs : ∀ q ∈ rs, s.Apart q := fun q hq => by
      have hq := hr q hq
      exact ⟨hsr.loc ▸ hq.1, hsr.loc ▸ hq.2⟩
    rw [renew_cons, renew_cons, renew_cons, apply_renew hs, apply_apply hsr, ih hrs]

end Renewal

end FormScaffold.Sync
