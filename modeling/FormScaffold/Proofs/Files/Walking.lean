import FormScaffold.Files.Walk
import FormScaffold.Proofs.Files.Contents
import FormScaffold.Proofs.Text.CodePoints

/-! # Following locations

On a tree without links the path of a location leads to that location, as far as its names are short
enough and directories lead there.

* `IsName`, `IsShort` — names that stand for themselves, and that are not too long;
* **`walk_append`** — what stands somewhere is reached;
* `walk_absent` — what does not is not found;
* `exists_walk_append` — the way goes on from where its first steps lead;
* `flaw?_onWay` — a way is free of flaws when the whole path is. -/

namespace FormScaffold

/-- A name that leads to what has it: it is a step, and does not lead upward. -/
def IsName (name : String) : Prop := Path.isStep name = true ∧ name ≠ ".."

/-- A name that is not too long. -/
def IsShort (name : String) : Prop := Text.weight name ≤ maxNameSize

instance (name : String) : Decidable (IsName name) := inferInstanceAs (Decidable (_ ∧ _))

instance (name : String) : Decidable (IsShort name) := inferInstanceAs (Decidable (_ ≤ _))

/-! ## Flaws of names -/

/-- Nothing is wrong with a text that names files: the halves in it stand for bytes, and there is no
NUL in it. -/
theorem textFlaw?_eq_none {s : String} :
    textFlaw? s = none ↔ Text.isNamable s = true ∧ Char.ofNat 0 ∉ s.toList := by
  unfold textFlaw?
  cases Text.isNamable s with
  | false => simp
  | true => by_cases hnul : Char.ofNat 0 ∈ s.toList <;> simp [hnul]

/-- What can be wrong with a text that is to name files. -/
theorem eq_of_textFlaw? {s : String} {e : PathError} (h : textFlaw? s = some e) :
    e = .unencodable ∨ e = .embeddedNul := by
  unfold textFlaw? at h
  split at h
  · exact .inl (Option.some.inj h).symm
  · split at h
    · exact .inr (Option.some.inj h).symm
    · exact absurd h (by simp)

namespace FileTree

variable {t : FileTree}

/-! ## One step -/

/-- Without steps nothing is left to follow. -/
theorem walk_nil (links : Nat) (loc : Location) : t.walk links loc [] = .ok (.taken loc) := by
  rw [walk]

/-- What is looked at before a piece is taken for a step, in this order. -/
theorem walk_cons (links : Nat) (loc : Location) (name : String) (rest : List String) :
    t.walk links loc (name :: rest) =
      if !t.isDirectory loc then .error .notDirectory
      else if !Path.isStep name then t.walk links loc rest
      else if name == ".." then t.walk links loc.dropLast rest
      else if Text.weight name > maxNameSize then .error .nameTooLong
      else match t.item? (loc ++ [name]) with
        | none => if rest.isEmpty then .ok (.vacant (loc ++ [name])) else .error .missing
        | some (.link target) =>
          match links with
          | 0 => .error .linkLoop
          | links + 1 => t.walk links (linkStart loc target) (Path.pieces target ++ rest)
        | some _ => t.walk links (loc ++ [name]) rest := by
  refine (walk.eq_2 ..).trans ?_
  rfl

/-- Nothing but a directory leads on. -/
theorem walk_of_not_directory {loc : Location} (h : t.item? loc ≠ some .directory) (links : Nat)
    (name : String) (rest : List String) :
    t.walk links loc (name :: rest) = .error .notDirectory := by
  have hdirectory : t.isDirectory loc = false := by
    rwa [← Bool.not_eq_true, isDirectory_iff]
  rw [walk_cons, hdirectory]
  rfl

/-- A piece that is no step stays. -/
theorem walk_here {loc : Location} (h : t.item? loc = some .directory) {piece : String}
    (hpiece : Path.isStep piece = false) (links : Nat) (rest : List String) :
    t.walk links loc (piece :: rest) = t.walk links loc rest := by
  rw [walk_cons, isDirectory_iff.2 h, hpiece]
  rfl

/-- A step upward. -/
theorem walk_up {loc : Location} (h : t.item? loc = some .directory) (links : Nat)
    (rest : List String) : t.walk links loc (".." :: rest) = t.walk links loc.dropLast rest := by
  rw [walk_cons, isDirectory_iff.2 h]
  rfl

section Directory

variable {loc : Location} (hloc : t.item? loc = some .directory) {name : String}
  (hname : IsName name)
include hloc hname

/-- A step from a directory is taken by its name. -/
theorem walk_step (hshort : IsShort name) (links : Nat) (rest : List String) :
    t.walk links loc (name :: rest) =
      match t.item? (loc ++ [name]) with
      | none => if rest.isEmpty then .ok (.vacant (loc ++ [name])) else .error .missing
      | some (.link target) =>
        match links with
        | 0 => .error .linkLoop
        | links + 1 => t.walk links (linkStart loc target) (Path.pieces target ++ rest)
      | some _ => t.walk links (loc ++ [name]) rest := by
  have hlong : ¬Text.weight name > maxNameSize := Nat.not_lt.2 hshort
  rw [walk_cons, isDirectory_iff.2 hloc, if_neg (by decide), hname.1, if_neg (by decide),
    if_neg (mt beq_iff_eq.1 hname.2)]
  exact if_neg hlong

/-- A step to where nothing stands ends there, or misses what is to be behind it. -/
theorem walk_vacant (hshort : IsShort name) (h : t.item? (loc ++ [name]) = none) (links : Nat)
    (rest : List String) :
    t.walk links loc (name :: rest) =
      if rest.isEmpty then .ok (.vacant (loc ++ [name])) else .error .missing := by
  rw [walk_step hloc hname hshort, h]

/-- A name that is too long leads nowhere. -/
theorem walk_long (hlong : ¬IsShort name) (links : Nat) (rest : List String) :
    t.walk links loc (name :: rest) = .error .nameTooLong := by
  have hlong' : Text.weight name > maxNameSize := Nat.not_le.1 hlong
  rw [walk_cons, isDirectory_iff.2 hloc]
  simp only [Bool.not_true, Bool.false_eq_true, if_false, hname.1,
    beq_eq_false_iff_ne.2 hname.2, hlong', if_true]

/-- A step to what is there, when it is no link. -/
theorem walk_taken (hshort : IsShort name) (h : t.item? (loc ++ [name]) ≠ none)
    (hlink : ∀ target, t.item? (loc ++ [name]) ≠ some (.link target)) (links : Nat)
    (rest : List String) :
    t.walk links loc (name :: rest) = t.walk links (loc ++ [name]) rest := by
  rw [walk_step hloc hname hshort]
  cases hitem : t.item? (loc ++ [name]) with
  | none => exact absurd hitem h
  | some item =>
    cases item with
    | directory => rfl
    | file bytes => rfl
    | link target => exact absurd hitem (hlink target)

end Directory

/-! ## Many steps -/

section Simple

variable (h : Contents.IsSimple t.item?)
include h

/-- **What stands somewhere is reached by the names on the way.** No links are on the way, and the
names are followed as they are: each is a step, not too long, and leads down. -/
theorem walk_append {loc : Location} {front : List String}
    (hfront : ∀ name ∈ front, IsName name ∧ IsShort name) (hitem : t.item? (loc ++ front) ≠ none)
    (links : Nat) (rest : List String) :
    t.walk links loc (front ++ rest) = t.walk links (loc ++ front) rest := by
  induction front generalizing loc with
  | nil => rw [List.append_nil, List.nil_append]
  | cons name front ih =>
    obtain ⟨hname, hshort⟩ := hfront name List.mem_cons_self
    have hsplit : loc ++ name :: front = loc ++ [name] ++ front := by simp
    have hloc : t.item? loc = some .directory :=
      h.directory_onWay (List.prefix_append _ _) (by simp) hitem
    have hnext : t.item? (loc ++ [name]) ≠ none := by
      rw [hsplit] at hitem
      by_cases hnil : front = []
      · rwa [hnil, List.append_nil] at hitem
      · rw [h.directory_onWay (List.prefix_append _ _) (by simpa using hnil) hitem]
        exact Option.some_ne_none _
    rw [List.cons_append, walk_taken hloc hname hshort hnext (h.linkless _),
      ih (fun m hm => hfront m (List.mem_cons_of_mem _ hm)) (hsplit ▸ hitem), ← hsplit]

/-- What does not stand somewhere is not found there. -/
theorem walk_absent {loc : Location} {front : List String}
    (hfront : ∀ name ∈ front, IsName name ∧ IsShort name) (hloc : t.item? loc = some .directory)
    (hitem : t.item? (loc ++ front) = none) (links : Nat) (rest : List String) :
    t.walk links loc (front ++ rest) = .error .missing ∨
      t.walk links loc (front ++ rest) = .error .notDirectory ∨
      ∃ l, t.walk links loc (front ++ rest) = .ok (.vacant l) := by
  induction front generalizing loc with
  | nil =>
    rw [List.append_nil, hloc] at hitem
    exact absurd hitem (Option.some_ne_none _)
  | cons name front ih =>
    obtain ⟨hname, hshort⟩ := hfront name List.mem_cons_self
    have hsplit : loc ++ name :: front = loc ++ [name] ++ front := by simp
    rw [List.cons_append]
    by_cases hnext : t.item? (loc ++ [name]) = none
    · rw [walk_vacant hloc hname hshort hnext]
      -- What is not there is a vacant place at the end of the steps, and is missing before.
      by_cases hrest : (front ++ rest).isEmpty = true
      · exact .inr (.inr ⟨_, if_pos hrest⟩)
      · exact .inl (if_neg hrest)
    · rw [walk_taken hloc hname hshort hnext (h.linkless _)]
      rw [hsplit] at hitem
      by_cases hdirectory : t.item? (loc ++ [name]) = some .directory
      · exact ih (fun m hm => hfront m (List.mem_cons_of_mem _ hm)) hdirectory hitem
      · cases front with
        | nil => exact absurd (by simpa using hitem) hnext
        | cons m front => exact .inr (.inl (walk_of_not_directory hdirectory _ _ _))

/-- No loop of links is found where there are no links. -/
theorem walk_ne_linkLoop (links : Nat) (loc : Location) (steps : List String) :
    t.walk links loc steps ≠ .error .linkLoop := by
  fun_induction walk t links loc steps with
  | case1 => simp
  | case2 => simp
  | case3 _ _ _ _ _ _ ih => exact ih
  | case4 _ _ _ _ _ _ _ ih => exact ih
  | case5 => simp
  | case6 => simp
  | case7 => simp
  | case8 loc name rest _ _ _ _ target hlink => exact absurd hlink (h.linkless _ _)
  | case9 loc name rest _ _ _ _ target hlink => exact absurd hlink (h.linkless _ _)
  | case10 _ _ _ _ _ _ _ _ _ _ _ ih => exact ih

end Simple

/-- What is found on the way is never a matter of the characters of a text. -/
theorem walk_ne_of_textFlaw? {text : String} {e : PathError} (h : textFlaw? text = some e)
    (links : Nat) (loc : Location) (steps : List String) : t.walk links loc steps ≠ .error e := by
  fun_induction walk t links loc steps with
  | case1 => simp
  | case2 => rcases eq_of_textFlaw? h with rfl | rfl <;> simp
  | case3 _ _ _ _ _ _ ih => exact ih
  | case4 _ _ _ _ _ _ _ ih => exact ih
  | case5 => rcases eq_of_textFlaw? h with rfl | rfl <;> simp
  | case6 => simp
  | case7 => rcases eq_of_textFlaw? h with rfl | rfl <;> simp
  | case8 => rcases eq_of_textFlaw? h with rfl | rfl <;> simp
  | case9 _ _ _ _ _ _ _ _ _ _ ih => exact ih
  | case10 _ _ _ _ _ _ _ _ _ _ _ ih => exact ih

/-! ## On the way -/

/-- **The way goes on from where its first steps lead.** Some links may have been used up by then,
so that fewer are left for the rest. -/
theorem exists_walk_append {links : Nat} {loc loc' : Location} {steps : List String}
    (h : t.walk links loc steps = .ok (.taken loc')) :
    ∃ links', ∀ rest, t.walk links loc (steps ++ rest) = t.walk links' loc' rest := by
  fun_induction walk t links loc steps with
  | case1 links loc =>
    obtain rfl : loc = loc' := Place.taken.inj (Except.ok.inj h)
    exact ⟨links, fun rest => rfl⟩
  | case2 => exact absurd h (by simp)
  | case3 links loc name rest hloc hdot ih =>
    obtain ⟨links', hrest⟩ := ih h
    exact ⟨links', fun tail => by rw [List.cons_append, walk, if_neg hloc, if_pos hdot, hrest]⟩
  | case4 links loc name rest hloc hdot hup ih =>
    obtain ⟨links', hrest⟩ := ih h
    exact ⟨links', fun tail => by
      rw [List.cons_append, walk, if_neg hloc, if_neg hdot, if_pos hup, hrest]⟩
  | case5 => exact absurd h (by simp)
  | case6 => exact absurd h (by simp)
  | case7 => exact absurd h (by simp)
  | case8 => exact absurd h (by simp)
  | case9 loc name rest hloc hdot hup hshort target hitem links ih =>
    obtain ⟨links', hrest⟩ := ih h
    refine ⟨links', fun tail => ?_⟩
    have htarget := hrest tail
    -- The steps of the target come before the rest, and the way goes on behind both.
    rw [List.append_assoc] at htarget
    rw [List.cons_append, walk, if_neg hloc, if_neg hdot, if_neg hup, if_neg hshort, hitem]
    exact htarget
  | case10 links loc name rest hloc hdot hup hshort item hlink hitem ih =>
    obtain ⟨links', hrest⟩ := ih h
    refine ⟨links', fun tail => ?_⟩
    rw [List.cons_append, walk, if_neg hloc, if_neg hdot, if_neg hup, if_neg hshort, hitem]
    cases item with
    | link target => exact absurd rfl (hlink target)
    | directory => exact hrest tail
    | file bytes => exact hrest tail

end FileTree

/-! ## Paths of locations -/

/-- Two texts with a slash between them can name files when both can. -/
theorem textFlaw?_append_slash (s r : String) :
    textFlaw? (s ++ "/" ++ r) = none ↔ textFlaw? s = none ∧ textFlaw? r = none := by
  have hslash : Char.ofNat 0 ∉ "/".toList := by decide
  have hlist : (s ++ "/" ++ r).toList = s.toList ++ '/' :: r.toList := by
    rw [String.toList_append, String.toList_append, List.append_assoc]
    rfl
  simp only [textFlaw?_eq_none, Text.isNamable, hlist, Text.all_codes_append_slash,
    Bool.and_eq_true,
    List.mem_append, List.mem_cons, not_or]
  have hne : Char.ofNat 0 ≠ '/' := by decide
  tauto

/-- Names with slashes between them can name files when all of them can. -/
theorem textFlaw?_intercalate (names : List String) :
    textFlaw? ("/".intercalate names) = none ↔ ∀ name ∈ names, textFlaw? name = none := by
  induction names with
  | nil => exact iff_of_true (by decide) (List.forall_mem_nil _)
  | cons name names ih =>
    cases names with
    | nil => rw [List.forall_mem_singleton, String.intercalate_singleton]
    | cons m names =>
      simp only [String.intercalate_cons_cons, textFlaw?_append_slash, ih, List.forall_mem_cons]

/-- **The text of a path can name files when all steps of the path can**, wherever the path starts.
-/
theorem Path.textFlaw?_text (p : Path) :
    textFlaw? p.text = none ↔ ∀ name ∈ p.steps, textFlaw? name = none := by
  have hempty : textFlaw? "" = none := by decide
  have hslash : textFlaw? "/" = none := by decide
  rw [← textFlaw?_intercalate]
  rcases p with ⟨_ | _ | _, steps⟩
  · cases steps with
    | nil => exact iff_of_true (by decide) hempty
    | cons name steps =>
      have htext : (⟨.here, name :: steps⟩ : Path).text = "/".intercalate (name :: steps) :=
        String.empty_append
      rw [htext]
  · have htext : (⟨.root, steps⟩ : Path).text = "" ++ "/" ++ "/".intercalate steps := rfl
    rw [htext, textFlaw?_append_slash, and_iff_right hempty]
  · have htext : (⟨.doubleRoot, steps⟩ : Path).text = "/" ++ "/" ++ "/".intercalate steps := rfl
    rw [htext, textFlaw?_append_slash, and_iff_right hslash]

/-- A text of plain characters can name files, when there is no NUL in it. -/
theorem textFlaw?_of_notMem {s : String} (hmark : Text.mark ∉ s.toList)
    (hnul : Char.ofNat 0 ∉ s.toList) : textFlaw? s = none :=
  textFlaw?_eq_none.2 ⟨Text.isNamable_of_notMem hmark, hnul⟩

/-- A path is free of flaws when its text can name files and is not too long. -/
theorem Path.flaw?_eq_none {p : Path} :
    p.flaw? = none ↔ textFlaw? p.text = none ∧ Text.weight p.text < maxPathSize := by
  unfold Path.flaw?
  cases textFlaw? p.text with
  | some e => simp
  | none => simp

/-- What can be wrong with a path. -/
theorem Path.eq_of_flaw? {p : Path} {e : PathError} (h : p.flaw? = some e) :
    textFlaw? p.text = some e ∨ e = .nameTooLong := by
  unfold Path.flaw? at h
  cases hflaw : textFlaw? p.text with
  | some f =>
    rw [hflaw] at h
    exact .inl h
  | none =>
    simp only [hflaw] at h
    split at h
    · exact .inr (Option.some.inj h).symm
    · exact absurd h (by simp)

/-- A loop of links is no flaw of a path: it is found in a tree only. -/
theorem Path.flaw?_ne_linkLoop (p : Path) : p.flaw? ≠ some .linkLoop := by
  intro hflaw
  rcases Path.eq_of_flaw? hflaw with htext | hlong
  · exact absurd (eq_of_textFlaw? htext) (by simp)
  · exact absurd hlong (by simp)

/-- The path of a location has no flaw when it is short enough and all names on the way can name
files. -/
theorem Path.flaw?_of_names {loc : Location} (hnames : ∀ name ∈ loc, textFlaw? name = none)
    (hsize : Text.weight (⟨.root, loc⟩ : Path).text < maxPathSize) :
    (⟨.root, loc⟩ : Path).flaw? = none :=
  Path.flaw?_eq_none.2 ⟨(Path.textFlaw?_text ⟨.root, loc⟩).2 hnames, hsize⟩

/-- The characters of names with slashes between them. -/
theorem mem_intercalate_slash {names : List String} {c : Char}
    (h : c ∈ ("/".intercalate names).toList) : c = '/' ∨ ∃ name ∈ names, c ∈ name.toList := by
  induction names with
  | nil => exact absurd h (by simp)
  | cons name names ih =>
    rcases names with - | ⟨next, names⟩
    · rw [String.intercalate_singleton] at h
      exact .inr ⟨name, List.mem_cons_self, h⟩
    · rw [String.intercalate_cons_cons, String.toList_append, String.toList_append,
        List.mem_append, List.mem_append] at h
      rcases h with (h | h) | h
      · exact .inr ⟨name, List.mem_cons_self, h⟩
      · exact .inl (by simpa using h)
      · exact (ih h).imp_right fun ⟨other, hother, hc⟩ =>
          ⟨other, List.mem_cons_of_mem _ hother, hc⟩

/-- There is one slash less than there are names. -/
theorem length_intercalate_slash_le (names : List String) :
    ("/".intercalate names).length ≤ (names.map fun name => name.length + 1).sum := by
  induction names with
  | nil => exact Nat.le_refl 0
  | cons name names ih =>
    rcases names with - | ⟨next, names⟩
    · rw [String.intercalate_singleton]
      simp
    · have hslash : "/".length = 1 := by decide
      rw [String.intercalate_cons_cons, String.length_append, String.length_append, List.map_cons,
        List.sum_cons, hslash]
      omega

/-- A name that fits everywhere: it is of plain characters, and not too long even if each of them
takes four bytes. -/
structure IsModest (name : String) : Prop where
  isName : IsName name
  plain : Text.mark ∉ name.toList ∧ Char.ofNat 0 ∉ name.toList
  length : name.length ≤ 60

instance (name : String) : Decidable (IsModest name) :=
  decidable_of_iff (_ ∧ _ ∧ _) ⟨fun ⟨hname, hplain, hlength⟩ => ⟨hname, hplain, hlength⟩,
    fun h => ⟨h.isName, h.plain, h.length⟩⟩

/-- A modest name is short enough: no character takes more than four bytes. -/
theorem IsModest.isShort {name : String} (h : IsModest name) : IsShort name := by
  have hweight := Text.weight_le_of_notMem h.plain.1
  have hlength := h.length
  rw [IsShort, maxNameSize]
  omega

/-- **A path of a few modest names has no flaw.** This is how the paths of examples and of rendered
files are shown to be fit, without counting their bytes. -/
theorem Path.flaw?_of_isModest {loc : Location} (h : ∀ name ∈ loc, IsModest name)
    (hcount : loc.length ≤ 10) : (⟨.root, loc⟩ : Path).flaw? = none := by
  have htext : (⟨.root, loc⟩ : Path).text = "/" ++ "/".intercalate loc := rfl
  refine Path.flaw?_of_names (fun name hname => textFlaw?_of_notMem (h name hname).plain.1
    (h name hname).plain.2) ?_
  have hplain : Text.mark ∉ (⟨.root, loc⟩ : Path).text.toList := by
    rw [htext, String.toList_append, List.mem_append, not_or]
    refine ⟨by decide, fun hmem => ?_⟩
    rcases mem_intercalate_slash hmem with hslash | ⟨name, hname, hmem⟩
    · exact absurd hslash (by decide)
    · exact (h name hname).plain.1 hmem
  have hsum : (loc.map fun name => name.length + 1).sum ≤ 61 * loc.length := by
    clear hplain htext hcount
    induction loc with
    | nil => exact Nat.le_refl 0
    | cons name loc ih =>
      obtain ⟨hname, hloc⟩ := List.forall_mem_cons.1 h
      have hfirst := hname.length
      have hrest := ih hloc
      rw [List.map_cons, List.sum_cons, List.length_cons]
      omega
  have hnames := length_intercalate_slash_le loc
  have hslash : "/".length = 1 := by decide
  have hlength : (⟨.root, loc⟩ : Path).text.length = 1 + ("/".intercalate loc).length := by
    rw [htext, String.length_append, hslash]
  have hweight := Text.weight_le_of_notMem hplain
  rw [maxPathSize]
  omega

/-- The path of a location starts with the path of all that is on the way: behind it the text ends,
or a slash comes next. -/
theorem Path.exists_text_append (l m : Location) :
    ∃ rest, (⟨.root, l ++ m⟩ : Path).text.toList = (⟨.root, l⟩ : Path).text.toList ++ rest ∧
      (rest = [] ∨ l = [] ∨ rest.head? = some '/') := by
  have htext : ∀ loc : Location, (⟨.root, loc⟩ : Path).text = "/" ++ "/".intercalate loc :=
    fun _ => rfl
  by_cases hl : l = []
  · subst hl
    exact ⟨("/".intercalate m).toList, by simp [htext], .inr (.inl rfl)⟩
  · by_cases hm : m = []
    · subst hm
      exact ⟨[], by rw [List.append_nil, List.append_nil], .inl rfl⟩
    · refine ⟨("/" ++ "/".intercalate m).toList, ?_, .inr (.inr (by simp))⟩
      rw [htext, htext, String.intercalate_append_of_ne_nil hl hm]
      simp only [String.toList_append, List.append_assoc]

/-- The code points of a way are the first of the whole path. -/
theorem Path.exists_codes_onWay {l loc : Location} (hinit : l <+: loc) :
    ∃ more, Text.codes (⟨.root, loc⟩ : Path).text.toList =
      Text.codes (⟨.root, l⟩ : Path).text.toList ++ more := by
  obtain ⟨m, rfl⟩ := hinit
  obtain ⟨rest, htext, hrest⟩ := Path.exists_text_append l m
  rw [htext]
  rcases hrest with rfl | rfl | hslash
  · exact ⟨[], by simp⟩
  · exact ⟨Text.codes rest, Text.codes_cons (by decide) rest⟩
  · obtain ⟨ds, rfl⟩ := List.head?_eq_some_iff.1 hslash
    exact Text.exists_codes_append (by decide) _ ds

/-- **A way is free of flaws when the whole path is.** The text of the way is the start of the whole
text, cut in front of a slash, and so are its code points. -/
theorem Path.flaw?_onWay {l loc : Location} (hinit : l <+: loc)
    (h : (⟨.root, loc⟩ : Path).flaw? = none) : (⟨.root, l⟩ : Path).flaw? = none := by
  obtain ⟨more, hcodes⟩ := Path.exists_codes_onWay hinit
  rw [Path.flaw?_eq_none, textFlaw?_eq_none] at h ⊢
  obtain ⟨⟨hnamable, hnul⟩, hsize⟩ := h
  rw [Text.isNamable, hcodes, List.all_append, Bool.and_eq_true] at hnamable
  rw [Text.weight_eq_sum, hcodes, List.map_append, List.sum_append] at hsize
  refine ⟨⟨hnamable.1, fun hmem => hnul ?_⟩, by rw [Text.weight_eq_sum]; omega⟩
  obtain ⟨m, rfl⟩ := hinit
  obtain ⟨rest, htext, -⟩ := Path.exists_text_append l m
  rw [htext]
  exact List.mem_append_left _ hmem

namespace FileTree

/-- What is found at the end of a path. -/
theorem find_eq_ok {t : FileTree} {current loc : Location} {p : Path} {item : Item} :
    t.find current p = .ok (loc, item) ↔
      p.flaw? = none ∧ t.walk maxLinks (p.start current) p.steps = .ok (.taken loc) ∧
        t.item? loc = some item := by
  unfold find place
  cases p.flaw? with
  | some e => simp [bind, Except.bind]
  | none =>
    cases t.walk maxLinks (p.start current) p.steps with
    | error e => simp [bind, Except.bind]
    | ok place =>
      cases place with
      | vacant l => simp [bind, Except.bind]
      | taken l =>
        cases hitem : t.item? l with
        | none =>
          -- A place that is taken holds an item, so that this case is not met.
          simp only [bind, Except.bind, hitem, reduceCtorEq, false_iff, not_and]
          rintro - heq
          obtain rfl := Place.taken.inj (Except.ok.inj heq)
          simp [hitem]
        | some found =>
          simp only [bind, Except.bind, hitem, pure, Except.pure, Except.ok.injEq, Prod.mk.injEq,
            Place.taken.injEq, true_and]
          refine and_congr_right ?_
          rintro rfl
          rw [hitem, Option.some.injEq]

/-- The path of a location is followed from the root. -/
theorem place_of_flaw?_eq_none {loc : Location} (h : (⟨.root, loc⟩ : Path).flaw? = none)
    (t : FileTree) : t.place [] ⟨.root, loc⟩ = t.walk maxLinks [] loc := by
  rw [place, h]
  rfl

/-- Without links no path leads into a loop of links. -/
theorem place_ne_linkLoop {t : FileTree} (h : Contents.IsSimple t.item?) (current : Location)
    (p : Path) : t.place current p ≠ .error .linkLoop := by
  unfold place
  cases hflaw : p.flaw? with
  | none => exact walk_ne_linkLoop h _ _ _
  | some e =>
    rintro ⟨⟩
    exact p.flaw?_ne_linkLoop hflaw

end FileTree

end FormScaffold
