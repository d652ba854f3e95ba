import FormScaffold.Metadata.Customization
import FormScaffold.Proofs.Contract.Plain
import FormScaffold.Proofs.Contract.Textual

/-! # Anchors of custom fields

Custom rows are placed one after another. Each is put right behind the row that it names, its
anchor, and at the end when the anchor is not there. Later rows may come between the two, but none
that does not belong to the anchor: a row is put behind the anchor itself, or behind a row that
belongs to it. All depends on the anchor being there in time; a row that names a custom row further
down is put at the end, and what comes later does not bring it to its anchor.

* `IsPutBehind` — one row put behind its anchor;
* `exists_insertCustomField` — the two ways in which a row is placed;
* `StandsBehind.put` — what a row that is placed does to those that were placed before;
* **`insertCustomFields_placed`** — where all custom rows end up. -/

namespace FormScaffold

/-! ## Anchors -/

/-- **The row is the anchor of the custom row**, which names it as the row before. -/
def IsAnchorOf (row custom : Entries) : Prop :=
  (custom.get "insert_after").truthy = true ∧
    (row.get "fieldname").same (custom.get "insert_after") = true

/-- **The row belongs to the anchor**: it is a custom row with this anchor, or with one that belongs
to it. -/
inductive BelongsTo (customs : List Entries) (anchor : Entries) : Entries → Prop
  | direct {row : Entries} : row ∈ customs → IsAnchorOf anchor row → BelongsTo customs anchor row
  | through {other row : Entries} :
    BelongsTo customs anchor other → row ∈ customs → IsAnchorOf other row →
      BelongsTo customs anchor row

/-- **The rows can be told apart by their names**, and the custom rows name their anchors by texts.
A row without a name is like no other. -/
structure ArePlaceable (fields customs : List Entries) : Prop where
  apart : ((fields ++ customs).map (·.get "fieldname")).Pairwise
    fun v w => v.truthy = true → v.same w = false
  textual : ∀ custom ∈ customs, (custom.get "insert_after").IsTextual

/-- What belongs to an anchor belongs to it among more rows. -/
theorem BelongsTo.mono {customs more : List Entries} (hsub : customs ⊆ more) {anchor row : Entries}
    (h : BelongsTo customs anchor row) : BelongsTo more anchor row := by
  induction h with
  | direct hrow hanchor => exact .direct (hsub hrow) hanchor
  | through _ hrow hanchor ih => exact .through ih (hsub hrow) hanchor

/-- An anchor has the name by which it is named. -/
theorem IsAnchorOf.name_eq {row custom : Entries} (h : IsAnchorOf row custom)
    (htextual : (custom.get "insert_after").IsTextual) :
    row.get "fieldname" = custom.get "insert_after" ∧ (row.get "fieldname").truthy = true := by
  obtain ⟨htruthy, hsame⟩ := h
  rcases htextual with hnull | ⟨s, hs⟩
  · rw [hnull] at htruthy
    exact absurd htruthy Bool.false_ne_true
  · rw [hs] at hsame
    have hname := same_text hsame
    rw [hs] at htruthy ⊢
    exact ⟨hname, by rw [hname]; exact htruthy⟩

/-- A row has one anchor. -/
theorem IsAnchorOf.unique {rows : List Entries} {a b custom : Entries}
    (hapart : (rows.map (·.get "fieldname")).Pairwise fun v w => v.truthy = true → v.same w = false)
    (htextual : (custom.get "insert_after").IsTextual) (ha : a ∈ rows) (hb : b ∈ rows)
    (hanchor : IsAnchorOf a custom) (hother : IsAnchorOf b custom) : a = b := by
  have hpairs : rows.Pairwise fun a b => ¬(IsAnchorOf a custom ∧ IsAnchorOf b custom) := by
    refine (List.pairwise_map.1 hapart).imp fun {a b} hdiffer hboth => ?_
    -- Both rows would have the name of the anchor.
    obtain ⟨hname, htruthy⟩ := hboth.1.name_eq htextual
    obtain ⟨hname', -⟩ := hboth.2.name_eq htextual
    have hsame := hboth.1.2
    rw [← hname', hdiffer htruthy] at hsame
    exact absurd hsame Bool.false_ne_true
  have : Std.Symm fun a b => ¬(IsAnchorOf a custom ∧ IsAnchorOf b custom) :=
    ⟨fun _ _ h hswap => h hswap.symm⟩
  by_contra hne
  exact hpairs.forall ha hb hne ⟨hanchor, hother⟩

/-! ## One row -/

/-- **The rows with a custom row put right behind its anchor.** -/
inductive IsPutBehind (custom : Entries) : List Entries → List Entries → Prop
  | here {anchor : Entries} {rows : List Entries} :
    IsAnchorOf anchor custom → IsPutBehind custom (anchor :: rows) (anchor :: custom :: rows)
  | later {row : Entries} {rows made : List Entries} :
    IsPutBehind custom rows made → IsPutBehind custom (row :: rows) (row :: made)

namespace IsPutBehind

variable {custom row : Entries} {rows made : List Entries}

/-- **Nothing is lost and nothing is added** but the custom row. -/
theorem perm (h : IsPutBehind custom rows made) : made.Perm (rows ++ [custom]) := by
  induction h with
  | here _ => exact (List.perm_append_singleton custom _).symm.cons _
  | later _ ih => exact ih.cons _

/-- **The rows stay in their order** around the custom row. -/
theorem sublist (h : IsPutBehind custom rows made) : rows.Sublist made := by
  induction h with
  | here _ => exact (List.sublist_cons_self custom _).cons_cons _
  | later _ ih => exact ih.cons_cons _

/-- The row stands next to its anchor. -/
theorem exists_next (h : IsPutBehind custom rows made) :
    ∃ anchor ∈ rows, IsAnchorOf anchor custom ∧
      ∃ pre post, made = pre ++ anchor :: custom :: post := by
  induction h with
  | here hanchor => exact ⟨_, List.mem_cons_self, hanchor, [], _, rfl⟩
  | @later row _ _ _ ih =>
    obtain ⟨anchor, hmem, hanchor, pre, post, rfl⟩ := ih
    exact ⟨anchor, List.mem_cons_of_mem _ hmem, hanchor, row :: pre, post, rfl⟩

/-- The row is put into the one or the other of two parts. -/
theorem of_append {first second : List Entries} (h : IsPutBehind custom (first ++ second) made) :
    (∃ changed, IsPutBehind custom first changed ∧ made = changed ++ second) ∨
      ∃ changed, IsPutBehind custom second changed ∧ made = first ++ changed := by
  induction first generalizing made with
  | nil => exact .inr ⟨made, h, rfl⟩
  | cons row first ih =>
    cases h with
    | here hanchor => exact .inl ⟨_, .here hanchor, rfl⟩
    | later hlater =>
      rcases ih hlater with ⟨changed, hput, rfl⟩ | ⟨changed, hput, rfl⟩
      · exact .inl ⟨row :: changed, .later hput, rfl⟩
      · exact .inr ⟨changed, hput, rfl⟩

/-- The first row stays the first. -/
theorem of_cons (h : IsPutBehind custom (row :: rows) made) :
    ∃ rest, made = row :: rest ∧ ∀ other ∈ rest, other ∈ rows ∨ other = custom := by
  cases h with
  | here _ => exact ⟨_, rfl, fun other hother => (List.mem_cons.1 hother).symm⟩
  | later hlater =>
    refine ⟨_, rfl, fun other hother => ?_⟩
    simpa using hlater.perm.subset hother

end IsPutBehind

/-- **The rows with a custom row placed**: behind its anchor, and at the end when none of the rows
is its anchor. -/
def IsPlaced (custom : Entries) (rows made : List Entries) : Prop :=
  IsPutBehind custom rows made ∨ (∀ row ∈ rows, ¬IsAnchorOf row custom) ∧ made = rows ++ [custom]

/-- A custom row with an anchor is put behind it when the anchor is among the rows; otherwise it is
not put anywhere yet. -/
theorem insertAfter?_cases {custom : Entries} (htruthy : (custom.get "insert_after").truthy = true)
    (rows : List Entries) :
    (∃ made, insertAfter? (custom.get "insert_after") (.record custom) (rows.map .record) =
      .ok (some (made.map .record)) ∧ IsPutBehind custom rows made) ∨
    (insertAfter? (custom.get "insert_after") (.record custom) (rows.map .record) = .ok none ∧
      ∀ row ∈ rows, ¬IsAnchorOf row custom) := by
  induction rows with
  | nil => exact .inr ⟨rfl, by simp⟩
  | cons row rows ih =>
    by_cases hsame : (row.get "fieldname").same (custom.get "insert_after") = true
    · refine .inl ⟨row :: custom :: rows, bind_eq_ok.2 ⟨row, rfl, ?_⟩, .here ⟨htruthy, hsame⟩⟩
      rw [if_pos hsame]
      rfl
    · rcases ih with ⟨made, hmade, hput⟩ | ⟨hnone, hother⟩
      · refine .inl ⟨row :: made, bind_eq_ok.2 ⟨row, rfl, ?_⟩, .later hput⟩
        rw [if_neg hsame]
        exact bind_eq_ok.2 ⟨_, hmade, rfl⟩
      · refine .inr ⟨bind_eq_ok.2 ⟨row, rfl, ?_⟩, ?_⟩
        · rw [if_neg hsame]
          exact bind_eq_ok.2 ⟨_, hnone, rfl⟩
        · exact List.forall_mem_cons.2 ⟨fun hanchor => hsame hanchor.2, hother⟩

/-- A custom row is always placed. -/
theorem exists_insertCustomField (rows : List Entries) (custom : Entries) :
    ∃ made, insertCustomField (rows.map .record) (.record custom) = .ok (made.map .record) ∧
      IsPlaced custom rows made := by
  have hend : (rows ++ [custom]).map Value.record = rows.map .record ++ [.record custom] := by simp
  by_cases htruthy : (custom.get "insert_after").truthy = true
  · rcases insertAfter?_cases htruthy rows with ⟨made, hmade, hput⟩ | ⟨hnone, hother⟩
    · refine ⟨made, bind_eq_ok.2 ⟨custom, rfl, ?_⟩, .inl hput⟩
      rw [if_pos htruthy]
      exact bind_eq_ok.2 ⟨_, hmade, rfl⟩
    · refine ⟨_, bind_eq_ok.2 ⟨custom, rfl, ?_⟩, .inr ⟨hother, rfl⟩⟩
      rw [if_pos htruthy, hend]
      exact bind_eq_ok.2 ⟨_, hnone, rfl⟩
  · refine ⟨_, bind_eq_ok.2 ⟨custom, rfl, ?_⟩, .inr ⟨fun row _ h => htruthy h.1, rfl⟩⟩
    rw [if_neg htruthy, hend]
    rfl

namespace IsPlaced

variable {custom : Entries} {rows made : List Entries} (h : IsPlaced custom rows made)

include h

/-- A custom row that is placed adds just itself, wherever it is put. -/
theorem perm : made.Perm (rows ++ [custom]) := by
  rcases h with hput | ⟨-, rfl⟩
  · exact hput.perm
  · exact .refl _

/-- A custom row that is placed leaves the others in their order. -/
theorem sublist : rows.Sublist made := by
  rcases h with hput | ⟨-, rfl⟩
  · exact hput.sublist
  · exact List.sublist_append_left _ _

end IsPlaced

/-! ## All rows -/

/-- **The row stands behind the anchor**, and only rows that belong to the anchor stand between. -/
def StandsBehind (customs made : List Entries) (anchor row : Entries) : Prop :=
  ∃ pre between post, made = pre ++ (anchor :: between) ++ row :: post ∧
    ∀ other ∈ between, BelongsTo customs anchor other

/-- **A row that is placed leaves the others behind their anchors.** The new row is put right behind
its own anchor, which may push it between another anchor and the rows behind it; then it belongs to
that anchor as well. -/
theorem StandsBehind.put {customs rows made : List Entries} {anchor row custom : Entries}
    (h : StandsBehind customs rows anchor row) (hplaced : IsPlaced custom rows made) :
    StandsBehind (customs ++ [custom]) made anchor row := by
  obtain ⟨pre, between, post, rfl, hbetween⟩ := h
  replace hbetween : ∀ other ∈ between, BelongsTo (customs ++ [custom]) anchor other :=
    fun other hother => (hbetween other hother).mono (List.subset_append_left _ _)
  rcases hplaced with hput | ⟨-, rfl⟩
  · rcases hput.of_append with ⟨front, hfront, rfl⟩ | ⟨back, hback, rfl⟩
    · rcases hfront.of_append with ⟨changed, -, rfl⟩ | ⟨middle, hmiddle, rfl⟩
      · exact ⟨changed, between, post, rfl, hbetween⟩
      · -- The row that is placed stands between the two. It belongs to the anchor as its own
        -- anchor does.
        obtain ⟨near, hnear, hanchor, -⟩ := hmiddle.exists_next
        have hbelongs : BelongsTo (customs ++ [custom]) anchor custom := by
          rcases List.mem_cons.1 hnear with rfl | hnear
          · exact .direct (by simp) hanchor
          · exact .through (hbetween near hnear) (by simp) hanchor
        obtain ⟨rest, rfl, hrest⟩ := hmiddle.of_cons
        refine ⟨pre, rest, post, rfl, fun other hother => ?_⟩
        rcases hrest other hother with hold | rfl
        · exact hbetween other hold
        · exact hbelongs
    · obtain ⟨rest, rfl, -⟩ := hback.of_cons
      exact ⟨pre, between, rest, rfl, hbetween⟩
  · exact ⟨pre, between, post ++ [custom], by simp, hbetween⟩

/-- **The rows with all custom rows placed.** A row whose anchor is a field, or a custom row listed
before, stands behind it; a row without such an anchor stands behind all these. -/
structure AreMerged (fields customs made : List Entries) : Prop where
  sublist : fields.Sublist made
  perm : made.Perm (fields ++ customs)
  behind : ∀ before custom after, customs = before ++ custom :: after →
    ∀ anchor ∈ fields ++ before, IsAnchorOf anchor custom → StandsBehind customs made anchor custom
  last : ∀ before custom after, customs = before ++ custom :: after →
    (∀ row ∈ fields ++ before, ¬IsAnchorOf row custom) →
      ∃ rows, rows.Perm (fields ++ before) ∧ (rows ++ [custom]).Sublist made

/-- A place in a longer list is the last one, or a place in the list before. -/
theorem concat_eq_append_cons {α : Type} {xs before after : List α} {x y : α}
    (h : xs ++ [x] = before ++ y :: after) :
    (before = xs ∧ y = x) ∨ ∃ rest, xs = before ++ y :: rest := by
  rcases List.eq_nil_or_concat after with rfl | ⟨rest, z, rfl⟩
  · obtain ⟨rfl, hlast⟩ := List.append_inj' h rfl
    exact .inl ⟨rfl, (List.singleton_inj.1 hlast).symm⟩
  · refine .inr ⟨rest, ?_⟩
    rw [List.concat_eq_append, ← List.cons_append, ← List.append_assoc] at h
    exact (List.append_inj' h rfl).1

/-- Rows that can be placed can be placed without the last custom row. -/
theorem ArePlaceable.of_concat {fields customs : List Entries} {custom : Entries}
    (h : ArePlaceable fields (customs ++ [custom])) : ArePlaceable fields customs := by
  refine ⟨?_, fun other hother => h.textual other (List.mem_append_left _ hother)⟩
  have hapart := h.apart
  rw [← List.append_assoc, List.map_append] at hapart
  exact (List.pairwise_append.1 hapart).1

/-- One row more is placed. -/
theorem AreMerged.put {fields customs rows made : List Entries} {custom : Entries}
    (h : AreMerged fields customs rows) (hplaceable : ArePlaceable fields (customs ++ [custom]))
    (hplaced : IsPlaced custom rows made) : AreMerged fields (customs ++ [custom]) made where
  sublist := h.sublist.trans hplaced.sublist
  perm := by
    rw [← List.append_assoc]
    exact hplaced.perm.trans (h.perm.append_right _)
  behind := by
    intro before other after hsplit anchor hanchor hof
    rcases concat_eq_append_cons hsplit with ⟨rfl, rfl⟩ | ⟨rest, rfl⟩
    · -- The row that is placed finds its anchor.
      have hmem : anchor ∈ rows := h.perm.mem_iff.2 hanchor
      rcases hplaced with hput | ⟨hnone, -⟩
      · obtain ⟨near, hnear, hnext, pre, post, rfl⟩ := hput.exists_next
        have hapart := hplaceable.of_concat.apart
        have htextual := hplaceable.textual other (by simp)
        obtain rfl : near = anchor :=
          hnext.unique hapart htextual (h.perm.mem_iff.1 hnear) hanchor hof
        exact ⟨pre, [], post, by simp, by simp⟩
      · exact absurd hof (hnone anchor hmem)
    · exact (h.behind before other rest rfl anchor hanchor hof).put hplaced
  last := by
    intro before other after hsplit hnone
    rcases concat_eq_append_cons hsplit with ⟨rfl, rfl⟩ | ⟨rest, rfl⟩
    · -- The new row goes to the end only when it finds no anchor.
      rcases hplaced with hput | ⟨-, rfl⟩
      · obtain ⟨near, hnear, hnext, -⟩ := hput.exists_next
        exact absurd hnext (hnone near (h.perm.mem_iff.1 hnear))
      · exact ⟨rows, h.perm, .refl _⟩
    · obtain ⟨ahead, hperm, hsub⟩ := h.last before other rest rfl hnone
      exact ⟨ahead, hperm, hsub.trans hplaced.sublist⟩

/-- **Where custom rows end up.** When the rows can be told apart by their names, the custom rows
are always placed: each once, with the fields in their order. A custom row whose anchor is a field,
or a custom row listed before, stands behind it, and between the two stand only custom rows that
belong to the anchor, directly or through others. A custom row whose anchor is listed only later, or
nowhere, stands behind all fields and all custom rows listed before. -/
theorem insertCustomFields_placed {fields customs : List Entries}
    (h : ArePlaceable fields customs) :
    ∃ made, insertCustomFields (fields.map .record) (customs.map .record) =
        .ok (made.map .record) ∧ AreMerged fields customs made := by
  -- The rows that were placed before are the state of the induction, so it takes the last row off.
  induction customs using List.reverseRecOn with
  | nil =>
    refine ⟨fields, rfl, .refl _, by simp, ?_, ?_⟩
    all_goals
      intro before custom after hsplit
      exact absurd hsplit (by simp)
  | append_singleton customs custom ih =>
    obtain ⟨rows, hrows, hmerged⟩ := ih h.of_concat
    obtain ⟨made, hmade, hplaced⟩ := exists_insertCustomField rows custom
    refine ⟨made, ?_, hmerged.put h hplaced⟩
    rw [List.map_append, insertCustomFields, List.foldlM_append]
    exact bind_eq_ok.2 ⟨_, hrows, bind_eq_ok.2 ⟨_, hmade, rfl⟩⟩

/-- A field. -/
def fieldRow (name : String) : Entries := [("fieldname", .text name)]

/-- A custom row with its anchor. -/
def customRow (name anchor : String) : Entries :=
  [("fieldname", .text name), ("insert_after", .text anchor)]

/-- The fields of a lead. -/
def leadFields : List Entries := [fieldRow "first", fieldRow "last"]

/-- Two rows behind the first name, a row behind one of them, and a row that is listed before its
anchor. -/
def leadCustoms : List Entries :=
  [customRow "middle" "first", customRow "nick" "middle", customRow "title" "first",
    customRow "suffix" "initial", customRow "initial" "first"]

/-- The later rows stand between the first name and the middle name. The suffix is at the end, with
the last name between it and its anchor. -/
theorem insertCustomFields_placed_lead :
    ArePlaceable leadFields leadCustoms ∧
      ∃ made, insertCustomFields (leadFields.map .record) (leadCustoms.map .record) =
          .ok (made.map .record) ∧
        StandsBehind leadCustoms made (fieldRow "first") (customRow "middle" "first") ∧
        StandsBehind leadCustoms made (customRow "middle" "first") (customRow "nick" "middle") ∧
        [customRow "initial" "first", fieldRow "last", customRow "suffix" "initial"].Sublist made ∧
        fieldRow "last" ∉ leadCustoms := by
  have h : ArePlaceable leadFields leadCustoms := by
    refine ⟨by decide, ?_⟩
    simp [leadCustoms, customRow, Value.IsTextual, Entries.get, Entries.get?]
  obtain ⟨made, hmade, hmerged⟩ := insertCustomFields_placed h
  have hfirst : IsAnchorOf (fieldRow "first") (customRow "middle" "first") := by
    constructor <;> decide
  have hmiddle : IsAnchorOf (customRow "middle" "first") (customRow "nick" "middle") := by
    constructor <;> decide
  refine ⟨h, made, hmade, ?_, ?_, ?_, by simp [leadCustoms, fieldRow, customRow]⟩
  · exact hmerged.behind [] _ _ rfl _ (by simp [leadFields]) hfirst
  · exact hmerged.behind [_] _ _ rfl _ (by simp) hmiddle
  · have hlist : [fieldRow "first", customRow "initial" "first", customRow "title" "first",
        customRow "middle" "first", customRow "nick" "middle", fieldRow "last",
        customRow "suffix" "initial"].map Value.record = made.map .record :=
      Except.ok.inj (Eq.trans rfl hmade)
    rw [← List.map_injective_iff.2 (fun _ _ => Value.record.inj) hlist]
    exact .cons _ (.cons_cons _ (.cons _ (.cons _ (.cons _ (.refl _)))))

end FormScaffold
