import FormScaffold.Proofs.Region.Remerging
import FormScaffold.Proofs.Sync.Reaching
import FormScaffold.Proofs.View.Rendering

/-! # Places of generated files

Where the files of a contract go, and what of them is not owned, depends on the entity and the
language alone.

* `mem_way` — the characters of the names on the way to a file;
* **`isPathOf_path`** — the path of a file leads to it by the names of its directories and its own;
* `eq_of_steps` — no file stands on the way to another;
* **`frame_blocks`** — the files of contracts of one entity differ in the bodies of their regions
  alone. -/

namespace FormScaffold.View

open Region Text

namespace FileKind

/-! ## Paths -/

/-- The directory where files of the kind stand. -/
def folder : FileKind → String
  | client | formObject | rules | notices => "lib"
  | list | form | resource | behavior | depends | realtime => "pages"
  | actions => "actions"
  | routes => "router"

/-- The directories in it on the way to the file. -/
def subfolders (names : Names) : FileKind → List String
  | list | form | resource | behavior | depends | realtime => [names.slug]
  | _ => []

/-- The name of a file without its ending. -/
def base (names : Names) : FileKind → String
  | client => "resource-client"
  | formObject => "behavior-shim"
  | rules => "depends-eval"
  | notices => "realtime"
  | list => "List"
  | form => "Form"
  | resource => "resource"
  | behavior => "behavior"
  | depends => "depends"
  | realtime => "realtime"
  | actions => names.slug
  | routes => names.slug

/-- The name of a file. -/
def fileName (names : Names) (k : FileKind) : String := k.base names ++ "." ++ names.language.word

/-- The names on the way to a file. A slug may be empty, and then leads nowhere. -/
def steps (names : Names) (k : FileKind) : List String :=
  (k.folder :: (k.subfolders names ++ [k.fileName names])).filter Path.isStep

/-- The path of a file is its directory, the directories in it, and the name of the file. -/
theorem path_eq (names : Names) (k : FileKind) :
    k.path names = "/".intercalate (k.folder :: (k.subfolders names ++ [k.fileName names])) := by
  rw [← String.toList_inj]
  cases k <;>
    simp [path, filePath, stem, folder, subfolders, fileName, base]

/-- A name of letters, digits and hyphens. -/
def IsSlug (slug : String) : Prop := ∀ c ∈ slug.toList, c = '-' ∨ c.isAlphanum = true

instance (slug : String) : Decidable (IsSlug slug) :=
  inferInstanceAs (Decidable (∀ c ∈ slug.toList, _))

/-- A slug has no other characters than letters, digits and hyphens. -/
theorem IsSlug.ne {slug : String} (h : IsSlug slug) {c : Char} (hc : c ≠ '-')
    (hword : c.isAlphanum = false) : c ∉ slug.toList := by
  intro hmem
  rcases h c hmem with rfl | hall
  · exact hc rfl
  · rw [hword] at hall
    exact absurd hall (by decide)

/-- The directories of files are slugs. -/
theorem isSlug_folder (k : FileKind) : IsSlug k.folder := by
  cases k <;> decide

/-- The endings of files are slugs. -/
theorem isSlug_word (language : Language) : IsSlug language.word := by
  cases language <;> decide

section Slug

variable {names : Names} (h : IsSlug names.slug)
include h

/-- The directories of a file have names like slugs. -/
theorem isSlug_of_mem_folders {k : FileKind} {name : String}
    (hname : name ∈ k.folder :: k.subfolders names) : IsSlug name := by
  rcases List.mem_cons.1 hname with rfl | hname
  · exact isSlug_folder k
  · cases k <;> simp only [subfolders, List.mem_singleton, List.not_mem_nil] at hname <;>
      exact hname ▸ h

/-- The names of files are slugs without their endings, when the slug of the entity is one. -/
theorem isSlug_base (k : FileKind) : IsSlug (k.base names) := by
  cases k
  case actions | routes => exact h
  all_goals
    simp only [base]
    decide

/-- The characters of the names on the way to a file. -/
theorem mem_way {k : FileKind} {name : String}
    (hname : name ∈ k.folder :: (k.subfolders names ++ [k.fileName names])) {c : Char}
    (hc : c ∈ name.toList) : c = '.' ∨ c = '-' ∨ c.isAlphanum = true := by
  rw [← List.cons_append, List.mem_append, List.mem_singleton] at hname
  rcases hname with hname | rfl
  · exact .inr (isSlug_of_mem_folders h hname c hc)
  · rw [fileName, String.toList_append, String.toList_append, List.mem_append,
      List.mem_append] at hc
    rcases hc with (hc | hc) | hc
    · exact .inr (isSlug_base h k c hc)
    · exact .inl (by simpa using hc)
    · exact .inr (isSlug_word names.language c hc)

/-- No other character is in a name on the way to a file. -/
theorem notMem_steps {c : Char} (hdot : c ≠ '.') (hhyphen : c ≠ '-')
    (hword : c.isAlphanum = false) (k : FileKind) : ∀ name ∈ k.steps names, c ∉ name.toList := by
  intro name hname hmem
  rcases mem_way h (List.mem_of_mem_filter hname) hmem with heq | heq | hall
  · exact hdot heq
  · exact hhyphen heq
  · rw [hword] at hall
    exact absurd hall (by decide)

/-- **The names on the way can name files**: every character of them is plain. The slug is of
letters, digits and hyphens, and so is all else between the slashes but for the points. -/
theorem textFlaw?_steps (k : FileKind) : ∀ name ∈ k.steps names, textFlaw? name = none :=
  fun name hname => textFlaw?_of_notMem
    (notMem_steps h (by decide) (by decide) (by decide) k name hname)
    (notMem_steps h (by decide) (by decide) (by decide) k name hname)

end Slug

/-- The name of a file has its dot and its ending. -/
theorem mem_fileName (names : Names) (k : FileKind) :
    '.' ∈ (k.fileName names).toList ∧ 's' ∈ (k.fileName names).toList := by
  have hword : 's' ∈ names.language.word.toList := by
    cases names.language <;> decide
  rw [fileName, String.toList_append, String.toList_append]
  exact ⟨by simp, List.mem_append_right _ hword⟩

/-- A text with a letter in it is a name: it is neither empty nor made of dots. -/
theorem isName_of_mem {name : String} (h : 's' ∈ name.toList) : IsName name := by
  have hne : ∀ other : String, 's' ∉ other.toList → name ≠ other := by
    rintro other hother rfl
    exact hother h
  have hempty := hne "" (by decide)
  have hdot := hne "." (by decide)
  refine ⟨?_, hne ".." (by decide)⟩
  simp [Path.isStep, hempty, hdot]

/-- The directory of a file is a step of its path. -/
theorem isStep_folder (k : FileKind) : Path.isStep k.folder = true := by
  cases k <;> decide

/-- The names on the way are those of the directories that lead somewhere, and that of the file. -/
theorem steps_eq (names : Names) (k : FileKind) :
    k.steps names =
      (k.folder :: (k.subfolders names).filter Path.isStep) ++ [k.fileName names] := by
  have hfile := (isName_of_mem (mem_fileName names k).2).1
  rw [steps, List.filter_cons_of_pos (isStep_folder k), List.filter_append,
    List.filter_cons_of_pos hfile, List.filter_nil, List.cons_append]

/-- A slug that leads nowhere is empty. -/
theorem eq_of_filter_isStep {slug slug' : String} (h : IsSlug slug) (h' : IsSlug slug')
    (heq : [slug].filter Path.isStep = [slug'].filter Path.isStep) : slug = slug' := by
  have hstep : ∀ s : String, IsSlug s → Path.isStep s = false → s = "" := by
    intro s hs hstep
    have hdot : s ≠ "." := by
      rintro rfl
      exact hs.ne (by decide) (by decide) (show '.' ∈ ".".toList by decide)
    by_contra hempty
    simp [Path.isStep, hempty, hdot] at hstep
  cases hslug : Path.isStep slug <;> cases hslug' : Path.isStep slug' <;>
    simp only [List.filter_cons, hslug, hslug', if_true, Bool.false_eq_true, if_false,
      List.filter_nil] at heq
  · rw [hstep slug h hslug, hstep slug' h' hslug']
  · exact absurd heq (by simp)
  · exact absurd heq (by simp)
  · exact (List.cons.inj heq).1

section Slug

variable {names : Names} (h : IsSlug names.slug)
include h

/-- **The path of a file leads to it by its names.** No name on the way is a point, two points or
empty, but for a slug with nothing in it, which leads nowhere. -/
theorem isPathOf_path (k : FileKind) : Sync.IsPathOf (k.steps names) (k.path names) := by
  refine ⟨?_, by rw [steps_eq]; simp, ?_⟩
  · rw [path_eq, steps]
    refine ofText_intercalate ?_ ?_
    · exact fun name hname hslash => absurd (mem_way h hname hslash) (by decide)
    · intro name hname
      obtain rfl : k.folder = name := Option.some.inj hname
      intro hempty
      have hstep := isStep_folder k
      rw [hempty] at hstep
      exact absurd hstep (by decide)
  · intro name hname
    refine ⟨(List.mem_filter.1 hname).2, ?_⟩
    rintro rfl
    rw [steps_eq] at hname
    rcases List.mem_append.1 hname with hname | hname
    · -- The name of a directory is a word or a slug, and has no dots.
      have hfolder : IsSlug ".." :=
        isSlug_of_mem_folders h (List.cons_subset_cons _ (List.filter_subset_self _) hname)
      exact hfolder.ne (by decide) (by decide) (show '.' ∈ "..".toList by decide)
    · have hfile := (isName_of_mem (mem_fileName names k).2).2
      exact hfile (List.mem_singleton.1 hname).symm

/-- The names on the way to a file fit everywhere when the slug is not long. -/
theorem isModest_steps (hslug : names.slug.length ≤ 50) (k : FileKind) :
    ∀ name ∈ k.steps names, IsModest name := by
  intro name hname
  have hplain : ∀ c : Char, c ≠ '.' → c ≠ '-' → c.isAlphanum = false → c ∉ name.toList :=
    fun c hdot hhyphen hword => notMem_steps h hdot hhyphen hword k name hname
  refine ⟨(isPathOf_path h k).names name hname,
    ⟨hplain _ (by decide) (by decide) (by decide), hplain _ (by decide) (by decide) (by decide)⟩,
    ?_⟩
  rw [steps_eq, List.mem_append, List.mem_cons, List.mem_singleton] at hname
  rcases hname with (rfl | hname) | rfl
  · cases k <;> decide
  · -- The only directory of its own that an entity has is named by its slug.
    have hsub := (List.mem_filter.1 hname).1
    cases k <;> simp only [subfolders, List.mem_singleton, List.not_mem_nil] at hsub <;>
      (subst hsub; omega)
  · have hword : names.language.word.length = 2 := by
      cases names.language <;> decide
    have hdot : ".".length = 1 := by decide
    have hbase : (k.base names).length ≤ 50 := by
      cases k
      case actions | routes => exact hslug
      all_goals
        simp only [base]
        decide
    rw [fileName, String.length_append, String.length_append, hword, hdot]
    omega

/-- **Every file of an entity whose slug is not long can stand below a root near the top**: no name
on the way to it is too long, nor is the whole path. -/
theorem fits_steps {root : Location} (hroot : ∀ name ∈ root, IsModest name)
    (hcount : root.length ≤ 7) (hslug : names.slug.length ≤ 50) (k : FileKind) :
    FileTree.HasNames (root ++ k.steps names) ∧
      (⟨.root, root ++ k.steps names⟩ : Path).flaw? = none := by
  have hmodest : ∀ name ∈ root ++ k.steps names, IsModest name :=
    List.forall_mem_append.2 ⟨hroot, isModest_steps h hslug k⟩
  have hsteps : (k.steps names).length ≤ 3 := by
    refine (List.length_filter_le _ _).trans ?_
    cases k <;> simp [subfolders]
  refine FileTree.fits_of_isModest hmodest ?_
  rw [List.length_append]
  omega

/-- **No file stands on the way to another**, be it of the same entity or of one with another slug.
Only directories stand on the way to a file, and no file has the name of a directory. -/
theorem eq_of_steps {names' : Names} (h' : IsSlug names'.slug)
    (hlanguage : names.language = names'.language) {k k' : FileKind}
    (hle : k.steps names <+: k'.steps names') :
    k = k' ∧ (k ∈ ofEntity → names.slug = names'.slug) := by
  rw [steps_eq, steps_eq] at hle
  rcases List.prefix_concat_iff.1 hle with heq | hle
  · obtain ⟨hfolders, hfile⟩ := List.append_inj' heq rfl
    obtain ⟨hfolder, hsubfolders⟩ := List.cons.inj hfolders
    have hbase : k.base names = k'.base names' := by
      have hname : k.base names ++ "." ++ names.language.word =
          k'.base names' ++ "." ++ names'.language.word := (List.cons.inj hfile).1
      rw [hlanguage, String.append_assoc, String.append_assoc] at hname
      exact (String.append_left_inj _).1 hname
    have hkind : k = k' := by
      cases k <;> cases k' <;> first
        | rfl
        | exact absurd hfolder (by decide)
        | exact absurd hbase (by simp [base])
    subst hkind
    refine ⟨rfl, fun hentity => ?_⟩
    -- The slug is the directory of pages, and the name of other files.
    cases k <;> first
      | exact eq_of_filter_isStep h h' hsubfolders
      | exact hbase
      | exact absurd hentity (by decide)
  · -- The name of a file has a dot, and those of directories have none.
    have hmem : k.fileName names ∈ k'.folder :: (k'.subfolders names').filter Path.isStep :=
      hle.subset (by simp)
    have hdirectory : k.fileName names ∈ k'.folder :: k'.subfolders names' :=
      List.cons_subset_cons _ (List.filter_subset_self _) hmem
    have hfolder := isSlug_of_mem_folders h' hdirectory
    exact absurd (mem_fileName names k).1 (hfolder.ne (by decide) (by decide))

end Slug

end FileKind

/-- What the program makes a slug of is one, whatever the entity is called. -/
theorem isSlug_slug (entity : String) : FileKind.IsSlug (Naming.slug entity) :=
  fun _ hc => Naming.mem_slug hc

/-! ## Frames -/

/-- A block without its body has its name. -/
theorem frame_body (name text : String) : (body name text).frame = .region name [] := rfl

/-- **What is not owned depends on the entity and the language alone.** So the files of two
contracts of one entity have one frame. -/
theorem frame_blocks {c c' : Contract} (h : c.entity = c'.entity) (layout layout' : Layout)
    (language : Language) (k : FileKind) :
    (k.blocks c layout language).map Block.frame =
      (k.blocks c' layout' language).map Block.frame := by
  have hnames : Names.ofContract c language = Names.ofContract c' language := by
    rw [Names.ofContract, Names.ofContract, h]
  unfold FileKind.blocks
  rw [hnames]
  cases k <;> simp only [listBlocks, formBlocks, resourceBlocks, behaviorBlocks, dependsBlocks,
    realtimeBlocks, actionsBlocks, List.map_cons, List.map_nil, frame_body]

end FormScaffold.View
