import Mathlib.Algebra.Order.BigOperators.Group.List
import Mathlib.Algebra.Ring.Int.Defs
import FormScaffold.Archive.EntryName
import FormScaffold.Proofs.Sync.Reaching
import FormScaffold.Proofs.Text.Words

/-! # Names of archive entries

The name of an entry has no detours, and is no directory's. Archives and trees take paths apart in
ways of their own. Both come to the same steps as long as a path never climbs above its start, and
that can be told from the steps an archive keeps: the first of them leads upward otherwise.

* `StaysBelow` — no first pieces of a path lead above the start;
* `reached_of_staysBelow` — such a path leads on from every start;
* **`foldl_addStep`** — the steps that are kept are the names of the location reached, or the first
  of them leads upward;
* **`entryName?_eq_some_iff`**, **`entryName?_iff_staysBelow`** — which paths name an entry, and
  how;
* `entryName?_of_isPathOf` — the name of an entry has the steps of its path;
* `getLast?_of_entryName?` — it does not end in a slash. -/

namespace FormScaffold.Archive

/-! ## Steps -/

/-- Whether a step leads on. -/
def leadsOn (step : List Char) : Bool := !(step.isEmpty || step == ['.'])

/-- A piece leads on just when it is a step. -/
theorem leadsOn_toList (piece : String) : leadsOn piece.toList = Path.isStep piece := by
  have hempty : piece.toList = [] ↔ piece = "" := by
    rw [← String.toList_inj]
    rfl
  have hdot : piece.toList = ['.'] ↔ piece = "." := by
    rw [← String.toList_inj]
    rfl
  rw [Bool.eq_iff_iff]
  simp [leadsOn, Path.isStep, hempty, hdot]

/-- Two points are the step upward, written as characters or as a text. -/
theorem toList_eq_upStep_iff (piece : String) : piece.toList = upStep ↔ piece = ".." := by
  rw [← String.toList_inj]
  rfl

/-- A step that does not lead on adds nothing. -/
theorem addStep_of_not_leadsOn {step : List Char} (h : leadsOn step = false)
    (out : List (List Char)) : addStep out step = out := by
  rw [leadsOn, Bool.not_eq_false'] at h
  unfold addStep
  exact if_pos h

/-- A step that leads on, and not upward, is added. -/
theorem addStep_of_leadsOn {step : List Char} (h : leadsOn step = true) (hup : step ≠ upStep)
    (out : List (List Char)) : addStep out step = step :: out := by
  rw [leadsOn, Bool.not_eq_true'] at h
  unfold addStep
  rw [h, if_neg Bool.false_ne_true, if_pos (by simpa using hup)]

/-- The pieces of a path are what its slashes split it into. -/
theorem map_toList_pieces (path : String) :
    (Path.pieces path).map String.toList = path.toList.splitOn '/' := by
  rw [Path.pieces, List.map_map]
  exact (List.map_congr_left fun cs _ => String.toList_ofList).trans (List.map_id _)

/-- No piece of a path has a slash in it. -/
theorem slash_notMem_of_mem_pieces {path piece : String} (h : piece ∈ Path.pieces path) :
    '/' ∉ piece.toList := by
  obtain ⟨cs, hcs, rfl⟩ := List.mem_map.1 h
  rw [String.toList_ofList]
  intro hslash
  have hnot := Text.not_of_mem_splitOnP (p := (· == '/')) hcs _ hslash
  exact absurd hnot (by decide)

/-- The pieces of a path have its characters. -/
theorem mem_of_mem_pieces {path piece : String} (h : piece ∈ Path.pieces path) {c : Char}
    (hc : c ∈ piece.toList) : c ∈ path.toList := by
  obtain ⟨cs, hcs, rfl⟩ := List.mem_map.1 h
  rw [String.toList_ofList] at hc
  have hmem := @Text.mem_intercalate_of_mem _ _ ['/'] _ _ hcs hc
  rwa [List.intercalate_splitOn] at hmem

/-! ## Below the start -/

/-- The path with its backslashes read as slashes. -/
def slashed (path : String) : String :=
  String.ofList (path.toList.map fun c => if c == '\\' then '/' else c)

/-- How far a piece of a path leads down. -/
def descent (piece : String) : Int :=
  if Path.isStep piece then if piece = ".." then -1 else 1 else 0

/-- How far pieces of a path lead down together. -/
def depth (pieces : List String) : Int := (pieces.map descent).sum

/-- **No first pieces of the path lead above the start.** -/
def StaysBelow (pieces : List String) : Prop := ∀ front, front <+: pieces → 0 ≤ depth front

/-- Where pieces of a path lead from a location, when no links are on the way. -/
def reached (start : Location) (pieces : List String) : Location :=
  follow start (pieces.filter Path.isStep)

/-- One more piece adds its own descent. -/
theorem depth_concat (pieces : List String) (piece : String) :
    depth (pieces ++ [piece]) = depth pieces + descent piece := by
  simp [depth]

/-- The empty path stays below its start. -/
theorem staysBelow_nil : StaysBelow [] := by
  intro front hfront
  rw [List.prefix_nil.1 hfront]
  exact Int.le_refl 0

/-- A path with one more piece stays below its start when the path does and the whole does not end
above it. -/
theorem staysBelow_concat {pieces : List String} {piece : String} :
    StaysBelow (pieces ++ [piece]) ↔ StaysBelow pieces ∧ 0 ≤ depth (pieces ++ [piece]) := by
  constructor
  · exact fun h => ⟨fun front hfront => h front (hfront.trans (List.prefix_append _ _)),
      h _ List.prefix_rfl⟩
  · rintro ⟨h, hall⟩ front hfront
    rcases List.prefix_concat_iff.1 hfront with rfl | hfront
    · exact hall
    · exact h front hfront

/-- The three kinds of pieces: those that lead nowhere, the step upward, and names. -/
theorem piece_cases (piece : String) :
    (Path.isStep piece = false ∧ descent piece = 0) ∨ (piece = ".." ∧ descent piece = -1) ∨
      (IsName piece ∧ descent piece = 1) := by
  cases hstep : Path.isStep piece with
  | false => exact .inl ⟨rfl, by simp [descent, hstep]⟩
  | true =>
    by_cases hup : piece = ".."
    · exact .inr (.inl ⟨hup, by rw [descent, if_pos hstep, if_pos hup]⟩)
    · exact .inr (.inr ⟨⟨hstep, hup⟩, by rw [descent, if_pos hstep, if_neg hup]⟩)

section Concat

variable (start : Location) (pieces : List String) {piece : String}

/-- A piece that is no step leads nowhere else. -/
theorem reached_concat_of_not_isStep (h : Path.isStep piece = false) :
    reached start (pieces ++ [piece]) = reached start pieces := by
  rw [reached, List.filter_append, List.filter_cons_of_neg (by simp [h]), List.filter_nil,
    List.append_nil, reached]

/-- A step upward leaves the last name. -/
theorem reached_concat_up : reached start (pieces ++ [".."]) = (reached start pieces).dropLast := by
  have hup : Path.isStep ".." = true := by decide
  rw [reached, List.filter_append, List.filter_cons_of_pos hup, List.filter_nil, follow,
    List.foldl_append]
  rfl

/-- A name is added. -/
theorem reached_concat_of_isName (h : IsName piece) :
    reached start (pieces ++ [piece]) = reached start pieces ++ [piece] := by
  obtain ⟨hstep, hup⟩ := h
  rw [reached, List.filter_append, List.filter_cons_of_pos hstep, List.filter_nil, follow,
    List.foldl_append, List.foldl_cons, List.foldl_nil, if_neg (by simpa using hstep),
    if_neg (by simpa using hup)]
  rfl

end Concat

/-- **Pieces that stay below the start lead on from it**, as far down as they say. The induction is
on the pieces from the end, since the condition is about all first pieces of the path. -/
theorem reached_of_staysBelow {pieces : List String} (h : StaysBelow pieces) (start : Location) :
    reached start pieces = start ++ reached [] pieces ∧
      ((reached [] pieces).length : Int) = depth pieces := by
  induction pieces using List.reverseRecOn with
  | nil => exact ⟨(List.append_nil start).symm, rfl⟩
  | append_singleton pieces piece ih =>
    obtain ⟨hfront, hdepth⟩ := staysBelow_concat.1 h
    obtain ⟨hreached, hlength⟩ := ih hfront
    rw [depth_concat] at hdepth ⊢
    rcases piece_cases piece with ⟨hstep, hdescent⟩ | ⟨rfl, hdescent⟩ | ⟨hname, hdescent⟩
    · rw [reached_concat_of_not_isStep _ _ hstep, reached_concat_of_not_isStep _ _ hstep, hdescent,
        Int.add_zero]
      exact ⟨hreached, hlength⟩
    · -- There is a step to take back.
      rw [hdescent, ← hlength] at hdepth
      have hne : reached [] pieces ≠ [] := by
        intro hnil
        rw [hnil] at hdepth
        exact absurd hdepth (by decide)
      have hpos := List.length_pos_iff.2 hne
      rw [reached_concat_up, reached_concat_up, hreached, List.dropLast_append_of_ne_nil hne,
        List.length_dropLast, hdescent, ← hlength]
      refine ⟨rfl, ?_⟩
      omega
    · rw [reached_concat_of_isName _ _ hname, reached_concat_of_isName _ _ hname,
        hreached, hdescent, List.append_assoc, List.length_append, ← hlength]
      exact ⟨rfl, rfl⟩

/-- A step upward at the very start is never taken back. -/
theorem getLast?_addStep {out : List (List Char)} (h : out.getLast? = some upStep)
    (step : List Char) : (addStep out step).getLast? = some upStep := by
  have hcons : (step :: out).getLast? = some upStep := by
    rw [List.getLast?_cons, h]
    rfl
  unfold addStep
  split
  · exact h
  · split
    · exact hcons
    · cases out with
      | nil => exact absurd h (by simp)
      | cons last rest =>
        simp only
        split
        · exact hcons
        · rename_i hlast
          cases rest with
          | nil => exact absurd (Option.some.inj h) (by simpa using hlast)
          | cons next rest => rwa [List.getLast?_cons_cons] at h

/-- A step upward takes back the name before it. -/
theorem addStep_up {last : String} (h : last ≠ "..") (out : List (List Char)) :
    addStep (last.toList :: out) "..".toList = out := by
  have hlast : (last.toList == upStep) = false :=
    beq_eq_false_iff_ne.2 (mt (toList_eq_upStep_iff last).1 h)
  unfold addStep
  simp only [hlast, Bool.false_eq_true, if_false]
  rfl

/-- **Steps without detours are the names of the location reached**, as long as no step leads above
the start; otherwise the first of them leads upward. -/
theorem foldl_addStep (pieces : List String) :
    (StaysBelow pieces ∧ (pieces.map String.toList).foldl addStep [] =
        ((reached [] pieces).map String.toList).reverse) ∨
      (¬StaysBelow pieces ∧
        ((pieces.map String.toList).foldl addStep []).getLast? = some upStep) := by
  induction pieces using List.reverseRecOn with
  | nil => exact .inl ⟨staysBelow_nil, rfl⟩
  | append_singleton pieces piece ih =>
    rw [List.map_append, List.map_singleton, List.foldl_append, List.foldl_cons, List.foldl_nil]
    rcases ih with ⟨hbelow, hfold⟩ | ⟨habove, hfold⟩
    · have hlength := (reached_of_staysBelow hbelow []).2
      rw [staysBelow_concat, and_iff_right hbelow, depth_concat, ← hlength, hfold]
      rcases piece_cases piece with ⟨hstep, hdescent⟩ | ⟨rfl, hdescent⟩ | ⟨hname, hdescent⟩
      · rw [addStep_of_not_leadsOn (by rw [leadsOn_toList, hstep]),
          reached_concat_of_not_isStep _ _ hstep]
        exact .inl ⟨by omega, rfl⟩
      · -- Whether there is a step to take back decides between the two cases.
        rcases List.eq_nil_or_concat (reached [] pieces) with hnil | ⟨above, last, hlast⟩
        · rw [hnil, hdescent]
          exact .inr ⟨by decide, rfl⟩
        · have hnames : ∀ name ∈ reached [] pieces, IsName name := isName_follow (by simp) _
          rw [hlast, List.concat_eq_append] at hnames
          have hup : last ≠ ".." := (hnames last (by simp)).2
          rw [reached_concat_up, hlast, hdescent, List.concat_eq_append, List.dropLast_concat,
            List.map_append, List.reverse_append, List.length_append]
          refine .inl ⟨?_, addStep_up hup _⟩
          rw [List.length_singleton]
          omega
      · have hup : piece.toList ≠ upStep := mt (toList_eq_upStep_iff piece).1 hname.2
        rw [addStep_of_leadsOn (by rw [leadsOn_toList, hname.1]) hup,
          reached_concat_of_isName _ _ hname, List.map_append, List.reverse_append]
        exact .inl ⟨by omega, rfl⟩
    · exact .inr ⟨fun h => habove (staysBelow_concat.1 h).1, getLast?_addStep hfold _⟩

/-! ## Names -/

/-- The steps of a path are its pieces between slashes of either kind. -/
theorem pathSteps_toList (path : String) :
    pathSteps path.toList = (Path.pieces (slashed path)).map String.toList := by
  rw [map_toList_pieces, slashed, String.toList_ofList, pathSteps]

/-- A path with slashes in place of backslashes has no backslash. -/
theorem backslash_notMem_slashed (path : String) : '\\' ∉ (slashed path).toList := by
  intro hmem
  rw [slashed, String.toList_ofList] at hmem
  obtain ⟨c, -, hc⟩ := List.mem_map.1 hmem
  split at hc
  · exact absurd hc (by decide)
  · rename_i hback
    exact hback (by simp [hc])

/-- Without slashes a path starts here, and with any it does not. -/
theorem ofSlashes_eq_here_iff {n : Nat} : Anchor.ofSlashes n = .here ↔ n = 0 := by
  rcases n with _ | _ | _ | n <;> simp [Anchor.ofSlashes]

/-- A path starts here unless it starts with a slash. -/
theorem anchorOf_eq_here_iff {cs : List Char} :
    Path.anchorOf cs = .here ↔ cs.head?.any (· == '/') = false := by
  rw [Path.anchorOf, ofSlashes_eq_here_iff]
  cases cs with
  | nil => simp
  | cons c cs => cases hslash : c == '/' <;> simp [hslash]

/-- A path is not absolute just when it starts from here, backslashes read as slashes. -/
theorem isAbsolute_eq_false_iff (path : String) :
    isAbsolute path.toList = false ↔ (Path.ofText (slashed path)).anchor = .here := by
  have hslash : ∀ c : Char, (c == '/' || c == '\\') =
      ((if c == '\\' then '/' else c) == '/') := by
    intro c
    split <;> simp_all
  rw [Path.ofText, anchorOf_eq_here_iff, slashed, String.toList_ofList, isAbsolute, List.head?_map,
    Option.any_map, funext hslash]

/-- Names of locations have no slashes. -/
theorem mem_reached {pieces : List String} {name : String} (h : name ∈ reached [] pieces) :
    name ∈ pieces ∧ Path.isStep name = true := by
  have hfollow : ∀ {loc : Location} (steps : List String), name ∈ follow loc steps →
      name ∈ loc ∨ name ∈ steps := by
    intro loc steps
    induction steps generalizing loc with
    | nil => exact .inl
    | cons step steps ih =>
      intro hmem
      rw [follow_cons] at hmem
      rcases ih hmem with hmem | hmem
      · split at hmem
        · exact .inl hmem
        · split at hmem
          · exact .inl ((List.dropLast_sublist loc).subset hmem)
          · rcases List.mem_append.1 hmem with hmem | hmem
            · exact .inl hmem
            · exact .inr (List.mem_cons.2 (.inl (List.mem_singleton.1 hmem)))
      · exact .inr (List.mem_cons_of_mem _ hmem)
  exact List.mem_filter.1 ((hfollow _ h).resolve_left List.not_mem_nil)

/-- **The name of an entry is that of the location reached**, if the path is not absolute, stays
below the start and does not end there. These are the three refusals of the code: a path that starts
at the root, one that climbs above the start, and one that names no file. -/
theorem entryName?_eq_some_iff {path name : String} :
    entryName? path = some name ↔
      ((Path.ofText (slashed path)).anchor = .here ∧ StaysBelow (Path.pieces (slashed path)) ∧
        reached [] (Path.pieces (slashed path)) ≠ []) ∧
      "/".intercalate (reached [] (Path.pieces (slashed path))) = name := by
  rw [← isAbsolute_eq_false_iff]
  simp only [entryName?, plainSteps, pathSteps_toList]
  generalize hpieces : Path.pieces (slashed path) = pieces
  rcases foldl_addStep pieces with ⟨hbelow, hfold⟩ | ⟨habove, hfold⟩
  · -- No step that is reached leads up, so that the first one does not either.
    have hhead : ((reached [] pieces).map String.toList).head? ≠ some upStep := by
      intro hhead
      obtain ⟨first, hfirst, heq⟩ := List.mem_map.1 (List.mem_of_head? hhead)
      exact (isName_follow (by simp) _ first hfirst).2 ((toList_eq_upStep_iff first).1 heq)
    have hname : String.ofList (['/'].intercalate ((reached [] pieces).map String.toList)) =
        "/".intercalate (reached [] pieces) := by
      rw [← toList_intercalate_slash, String.ofList_toList]
    rw [hfold, List.reverse_reverse, hname, beq_eq_false_iff_ne.2 hhead, Bool.or_false,
      List.isEmpty_map]
    simp only [hbelow, true_and]
    cases isAbsolute path.toList <;> cases reached [] pieces <;> simp
  · -- Above the start, a step that leads up stays in front for good.
    have hhead : (((pieces.map String.toList).foldl addStep []).reverse.head? == some upStep) =
        true := by rw [List.head?_reverse, hfold, beq_self_eq_true]
    rw [hhead, Bool.or_true, if_pos rfl]
    exact iff_of_false (by simp) fun h => habove h.1.2.1

/-- What is put together from steps ends in a step. -/
theorem getLast?_intercalate {steps : List (List Char)} (h : ∀ s ∈ steps, '/' ∉ s ∧ s ≠ []) :
    (['/'].intercalate steps).getLast? ≠ some '/' := by
  induction steps with
  | nil => exact Option.some_ne_none _ ∘ Eq.symm
  | cons s steps ih =>
    obtain ⟨⟨hs, -⟩, hsteps⟩ := List.forall_mem_cons.1 h
    cases steps with
    | nil =>
      intro hlast
      rw [List.intercalate_singleton] at hlast
      exact hs (List.mem_of_getLast? hlast)
    | cons t steps =>
      -- The last step is not empty, so that the separator before it is not the end.
      have hne : ['/'].intercalate (t :: steps) ≠ [] := by
        obtain ⟨c, cs, ht⟩ := List.exists_cons_of_ne_nil (hsteps t List.mem_cons_self).2
        rw [ht]
        cases steps <;> simp
      have hsplit : ['/'].intercalate (s :: t :: steps) =
          s ++ ['/'] ++ ['/'].intercalate (t :: steps) := by simp
      obtain ⟨c, hc⟩ := Option.ne_none_iff_exists'.1 (mt List.getLast?_eq_none_iff.1 hne)
      have hrest := ih hsteps
      rw [hc] at hrest
      rw [hsplit, List.getLast?_append, hc]
      exact hrest

/-- **The name of an entry does not end in a slash**, as that of a directory does. So the reader of
an archive takes every entry for a file. -/
theorem getLast?_of_entryName? {path name : String} (h : entryName? path = some name) :
    name.toList.getLast? ≠ some '/' := by
  obtain ⟨-, rfl⟩ := entryName?_eq_some_iff.1 h
  rw [toList_intercalate_slash]
  refine getLast?_intercalate (List.forall_mem_map.2 fun step hstep => ?_)
  obtain ⟨hpiece, hleads⟩ := mem_reached hstep
  refine ⟨slash_notMem_of_mem_pieces hpiece, fun hnil => ?_⟩
  rw [String.toList_inj.1 (hnil.trans String.toList_empty.symm)] at hleads
  exact absurd hleads (by decide)

/-- A path without backslashes is read as it stands. -/
theorem slashed_eq_self {path : String} (h : '\\' ∉ path.toList) : slashed path = path := by
  rw [← String.toList_inj, slashed, String.toList_ofList]
  refine (List.map_congr_left fun c hc => ?_).trans (List.map_id _)
  have hne : (c == '\\') = false := beq_eq_false_iff_ne.2 fun heq => h (heq ▸ hc)
  rw [hne, if_neg Bool.false_ne_true]
  rfl

/-- Pieces without steps upward stay below the start. -/
theorem staysBelow_of_isName {pieces : List String}
    (h : ∀ name ∈ pieces.filter Path.isStep, IsName name) : StaysBelow pieces := by
  intro front hfront
  have hdescent : ∀ piece ∈ front, 0 ≤ descent piece := by
    intro piece hpiece
    rcases piece_cases piece with ⟨-, hdescent⟩ | ⟨rfl, -⟩ | ⟨-, hdescent⟩
    · exact hdescent.ge
    · exact absurd rfl (h ".." (List.mem_filter.2 ⟨hfront.subset hpiece, by decide⟩)).2
    · omega
  exact List.sum_nonneg (List.forall_mem_map.2 hdescent)

/-- **The name of an entry has the steps of its path.** A path that is written without detours and
without backslashes is its own entry. -/
theorem entryName?_of_isPathOf {steps : List String} {path : String}
    (h : Sync.IsPathOf steps path) (hback : '\\' ∉ path.toList) :
    entryName? path = some ("/".intercalate steps) := by
  obtain ⟨hpath, hne, hnames⟩ := h
  obtain ⟨hanchor, hsteps⟩ := Path.mk.inj hpath
  rw [entryName?_eq_some_iff, slashed_eq_self hback, reached, hsteps, follow_of_isName hnames,
    List.nil_append]
  exact ⟨⟨hanchor, staysBelow_of_isName (hsteps ▸ hnames), hne⟩, rfl⟩

/-- A name for the entry of a path: names between slashes, which lead where the path leads, and
which are the name of their own entry. -/
structure IsNameOf (path name : String) : Prop where
  steps : ∃ steps, steps ≠ [] ∧ name = "/".intercalate steps ∧
    ∀ step ∈ steps, step ≠ "" ∧ IsName step ∧ '/' ∉ step.toList ∧ '\\' ∉ step.toList
  location : ∀ start, reached start (Path.pieces name) = reached start (Path.pieces (slashed path))
  self : entryName? name = some name

/-- **The name of an entry is below the start of the archive, where its path leads.** There is one
exactly if the path, with its backslashes read as slashes, is not absolute, never climbs above the
start on its way, and ends elsewhere. -/
theorem entryName?_iff_staysBelow (path : String) (start : Location) :
    ((∃ name, entryName? path = some name) ↔
      (Path.ofText (slashed path)).anchor = .here ∧ StaysBelow (Path.pieces (slashed path)) ∧
        reached start (Path.pieces (slashed path)) ≠ start) ∧
    ∀ name, entryName? path = some name → IsNameOf path name := by
  constructor
  · simp only [entryName?_eq_some_iff, exists_and_left, exists_eq', and_true]
    refine and_congr_right fun _ => and_congr_right fun hbelow => ?_
    rw [(reached_of_staysBelow hbelow start).1, ne_eq, ne_eq, List.append_right_eq_self]
  · intro name hname
    obtain ⟨⟨-, hbelow, hne⟩, rfl⟩ := entryName?_eq_some_iff.1 hname
    generalize hsteps : reached [] (Path.pieces (slashed path)) = steps at hne
    have hstep : ∀ step ∈ steps, step ≠ "" ∧ IsName step ∧ '/' ∉ step.toList ∧
        '\\' ∉ step.toList := by
      intro step hmem
      rw [← hsteps] at hmem
      obtain ⟨hpiece, hleads⟩ := mem_reached hmem
      exact ⟨fun h => absurd hleads (h ▸ by decide), isName_follow (by simp) _ step hmem,
        slash_notMem_of_mem_pieces hpiece,
        fun hback => backslash_notMem_slashed path (mem_of_mem_pieces hpiece hback)⟩
    -- The name is a path of its own, with the location as its steps and nothing else in it.
    have hpath : Sync.IsPathOf steps ("/".intercalate steps) := by
      refine ⟨?_, hne, fun step hmem => (hstep step hmem).2.1⟩
      rw [ofText_intercalate (fun step hmem => (hstep step hmem).2.2.1)
        (fun step hmem => (hstep step (List.mem_of_mem_head? hmem)).1)]
      refine congrArg (Path.mk .here) (List.filter_eq_self.2 fun step hmem => ?_)
      exact (hstep step hmem).2.1.1
    -- What is left: the name leads where the path did, and has no backslash to be read as a slash.
    refine ⟨⟨steps, hne, rfl, hstep⟩, fun start => ?_, entryName?_of_isPathOf hpath ?_⟩
    · have hnames : (Path.pieces ("/".intercalate steps)).filter Path.isStep = steps :=
        congrArg Path.steps hpath.ofText
      rw [(reached_of_staysBelow hbelow start).1, hsteps, reached, hnames,
        follow_of_isName hpath.names]
    · intro hback
      rw [toList_intercalate_slash] at hback
      rcases Text.mem_intercalate hback with hback | ⟨part, hpart, hback⟩
      · exact absurd (List.mem_singleton.1 hback) (by decide)
      · obtain ⟨step, hmem, rfl⟩ := List.mem_map.1 hpart
        exact (hstep step hmem).2.2.2 hback

/-- Backslashes, empty pieces and a detour. -/
theorem entryName?_iff_staysBelow_detour :
    entryName? "a\\.//b/../c" = some "a/c" ∧ IsNameOf "a\\.//b/../c" "a/c" := by
  have hname : entryName? "a\\.//b/../c" = some "a/c" := by decide +kernel
  exact ⟨hname, (entryName?_iff_staysBelow _ []).2 _ hname⟩

end FormScaffold.Archive
