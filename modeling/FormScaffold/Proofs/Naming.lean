import FormScaffold.Naming
import FormScaffold.Proofs.Text.Words

/-! # The characters of derived names

Whatever an entity is called, the names derived from its name hold ASCII letters and digits only,
beside the hyphens of slugs:

* **`mem_slug`**, `mem_component`, `mem_function` — the characters of derived names;
* **`slug_eq_empty_iff`** — the names that have no slug;
* **`slug_eq_slug_iff`** — the names that share a slug;
* `slug_slug` — a slug is its own slug;
* **`slug_eq_empty_or_isKebab`**, `isPascal_component`, `isCamel_function` — how derived names
  start, and what they are put together from. -/

namespace FormScaffold.Naming

open Text

/-! ## Letters and digits -/

/-- The code point of a letter made big: small letters of ASCII move by 32, and nothing else does.
-/
theorem toNat_toUpper (c : Char) :
    c.toUpper.toNat = if 97 ≤ c.toNat ∧ c.toNat ≤ 122 then c.toNat - 32 else c.toNat := by
  unfold Char.toUpper
  split
  · rename_i hc
    simp only [UInt32.le_iff_toNat_le, Char.reduceVal, UInt32.reduceToNat, ← Char.toNat_val,
      UInt32.reduceSub, UInt32.toNat_add] at hc ⊢
    rw [if_pos hc]
    omega
  · rename_i hc
    simp only [UInt32.le_iff_toNat_le, Char.reduceVal, UInt32.reduceToNat, ← Char.toNat_val] at hc ⊢
    exact (if_neg hc).symm

/-- The code point of a letter made small: big letters of ASCII move by 32, and nothing else does.
-/
theorem toNat_toLower (c : Char) :
    c.toLower.toNat = if 65 ≤ c.toNat ∧ c.toNat ≤ 90 then c.toNat + 32 else c.toNat := by
  unfold Char.toLower
  split
  · rename_i hc
    simp only [UInt32.le_iff_toNat_le, Char.reduceVal, UInt32.reduceToNat, ← Char.toNat_val,
      UInt32.reduceSub, UInt32.toNat_add] at hc ⊢
    rw [if_pos hc]
    omega
  · rename_i hc
    simp only [UInt32.le_iff_toNat_le, Char.reduceVal, UInt32.reduceToNat, ← Char.toNat_val] at hc ⊢
    exact (if_neg hc).symm

/-- A letter or a digit made big is a letter or a digit. -/
theorem isAlphanum_toUpper {c : Char} (h : c.isAlphanum = true) : c.toUpper.isAlphanum = true := by
  rw [isAlphanum_iff] at h ⊢
  rw [toNat_toUpper]
  split <;> omega

/-- A letter or a digit made small is a letter or a digit. -/
theorem isAlphanum_toLower {c : Char} (h : c.isAlphanum = true) : c.toLower.isAlphanum = true := by
  rw [isAlphanum_iff] at h ⊢
  rw [toNat_toLower]
  split <;> omega

/-! ## Derived names -/

/-- The parts of a name are of letters and digits, all else is where they are separated. -/
theorem mem_parts {cs part : List Char} (h : part ∈ parts cs) :
    ∀ c ∈ part, c.isAlphanum = true := by
  intro c hc
  simpa [isWordPart] using not_of_mem_splitOnP (List.mem_filter.1 h).1 c hc

/-- **A slug holds letters, digits and hyphens.** Whatever alphabet a name is written in, only
letters and digits of ASCII are left of it. -/
theorem mem_slug {name : String} {c : Char} (h : c ∈ (slug name).toList) :
    c = '-' ∨ c.isAlphanum = true := by
  rw [slug, String.toList_ofList] at h
  rcases mem_intercalate h with h | ⟨part, hpart, hc⟩
  · exact .inl (List.mem_singleton.1 h)
  · obtain ⟨raw, hraw, rfl⟩ := List.mem_map.1 hpart
    obtain ⟨d, hd, rfl⟩ := List.mem_map.1 hc
    exact .inr (isAlphanum_toLower (mem_parts hraw d hd))

/-- The name of a component is of letters and digits. -/
theorem mem_pascal {cs : List Char} {c : Char} (h : c ∈ pascal cs) : c.isAlphanum = true := by
  have hflat : ∀ d ∈ (parts cs).flatMap capital, d.isAlphanum = true := by
    intro d hd
    obtain ⟨part, hpart, hd⟩ := List.mem_flatMap.1 hd
    have hall := mem_parts hpart
    cases part with
    | nil => simp [capital] at hd
    | cons e part =>
      rcases List.mem_cons.1 hd with rfl | hd
      · exact isAlphanum_toUpper (hall e List.mem_cons_self)
      · exact hall d (List.mem_cons_of_mem _ hd)
  unfold pascal letterFirst at h
  split at h
  · rw [List.mem_singleton.1 h]
    decide
  · split at h
    · rcases List.mem_cons.1 h with rfl | h
      · decide
      · exact hflat c h
    · exact hflat c h

/-- **The name of a component holds letters and digits.** All else in the name has cut it into the
words that are put together. -/
theorem mem_component {name : String} {c : Char} (h : c ∈ (component name).toList) :
    c.isAlphanum = true := by
  rw [component, String.toList_ofList] at h
  exact mem_pascal h

/-- **The name of a function holds letters and digits.** It is the name of the component with a
small letter in front. -/
theorem mem_function {name : String} {c : Char} (h : c ∈ (function name).toList) :
    c.isAlphanum = true := by
  rw [function, String.toList_ofList] at h
  have hall := @mem_pascal name.toList
  cases hp : pascal name.toList with
  | nil => simp [hp, small] at h
  | cons d rest =>
    rw [hp] at h hall
    rcases List.mem_cons.1 h with rfl | h
    · exact isAlphanum_toLower (hall List.mem_cons_self)
    · exact hall (List.mem_cons_of_mem _ h)

/-! ## Words -/

/-- The hyphens put before words leave the letters and digits. -/
theorem filter_hyphenateWords (inWord : Bool) (cs : List Char) :
    (hyphenateWords inWord cs).filter isWordPart = cs.filter isWordPart := by
  have hhyphen : isWordPart '-' = false := by decide
  induction inWord, cs using hyphenateWords.induct with
  | case1 => rfl
  | case2 inWord c u l rest hword ih =>
    rw [hyphenateWords, if_pos hword, List.filter_cons, ih, ← List.filter_cons]
  | case3 inWord c u l rest hword hstart ih =>
    rw [hyphenateWords, if_neg hword, if_pos hstart]
    simp only [List.filter_cons, hhyphen, ih, Bool.false_eq_true, if_false]
  | case4 inWord c u l rest hword hstart ih =>
    rw [hyphenateWords, if_neg hword, if_neg hstart, List.filter_cons, ih, ← List.filter_cons]
  | case5 inWord c rest hshort ih =>
    rw [hyphenateWords.eq_3 _ _ _ hshort, List.filter_cons, ih, ← List.filter_cons]

/-- Hyphens before capitals are all that is added to a name. -/
theorem filter_hyphenateCapitals (cs : List Char) :
    (hyphenateCapitals cs).filter isWordPart = cs.filter isWordPart := by
  have hhyphen : isWordPart '-' = false := by decide
  induction cs using hyphenateCapitals.induct with
  | case1 c u rest hcapital ih =>
    rw [hyphenateCapitals, if_pos hcapital, List.filter_cons,
      List.filter_cons_of_neg (by simp [hhyphen]), ih, ← List.filter_cons]
  | case2 c u rest hcapital ih =>
    rw [hyphenateCapitals, if_neg hcapital, List.filter_cons, ih, ← List.filter_cons]
  | case3 cs hshort => rw [hyphenateCapitals.eq_2 _ hshort]

/-- The parts of a name hold its letters and digits. -/
theorem flatten_parts (cs : List Char) : (parts cs).flatten = cs.filter isWordPart := by
  rw [parts, List.flatten_filter_not_isEmpty, flatten_splitOnP]
  simp

/-- The words of a name, in small letters. -/
def words (name : String) : List (List Char) :=
  (parts (hyphenateCapitals (hyphenateWords false name.toList))).map fun p => p.map Char.toLower

/-- A slug is its words with hyphens between them. -/
theorem slug_eq_ofList (name : String) :
    slug name = String.ofList (['-'].intercalate (words name)) := rfl

/-- **The words of a name spell its letters and digits.** Only their case is changed, and what
stands between them is left out. -/
theorem flatten_words (name : String) :
    (words name).flatten = (name.toList.filter isWordPart).map Char.toLower := by
  rw [words, ← List.map_flatten, flatten_parts, filter_hyphenateCapitals, filter_hyphenateWords]

/-- No word of a slug is empty. -/
theorem ne_nil_of_mem_words {name : String} {word : List Char} (h : word ∈ words name) :
    word ≠ [] := by
  obtain ⟨part, hpart, rfl⟩ := List.mem_map.1 h
  simpa using (List.mem_filter.1 hpart).2

/-- No word of a slug has a hyphen in it, so that its words can be told from it. -/
theorem hyphen_notMem_of_mem_words {name : String} {word : List Char} (h : word ∈ words name) :
    '-' ∉ word := by
  obtain ⟨part, hpart, rfl⟩ := List.mem_map.1 h
  intro hmem
  obtain ⟨c, hc, heq⟩ := List.mem_map.1 hmem
  have hword := isAlphanum_toLower (mem_parts hpart c hc)
  rw [heq] at hword
  exact absurd hword (by decide)

/-- Just the names without a letter or a digit of ASCII have no words. -/
theorem words_eq_nil_iff (name : String) :
    words name = [] ↔ ∀ c ∈ name.toList, c.isAlphanum = false := by
  have hflat : words name = [] ↔ (words name).flatten = [] := by
    refine ⟨fun h => by rw [h, List.flatten_nil], fun h => ?_⟩
    refine List.eq_nil_iff_forall_not_mem.2 fun word hword => ?_
    exact ne_nil_of_mem_words hword (List.flatten_eq_nil_iff.1 h word hword)
  rw [hflat, flatten_words, List.map_eq_nil_iff, List.filter_eq_nil_iff]
  simp [isWordPart]

/-- The hyphens of a slug stand between its words. -/
theorem splitOn_slug {name : String} (h : words name ≠ []) :
    (slug name).toList.splitOn '-' = words name := by
  rw [slug_eq_ofList, String.toList_ofList]
  exact List.splitOn_intercalate '-' (fun _ => hyphen_notMem_of_mem_words) h

/-- Just the names without words have an empty slug. -/
theorem slug_eq_empty_iff_words (name : String) : slug name = "" ↔ words name = [] := by
  constructor
  · intro hempty
    by_contra hne
    have hsplit := splitOn_slug hne
    rw [hempty] at hsplit
    have hmem : [] ∈ words name := by rw [← hsplit]; exact List.mem_cons_self
    exact ne_nil_of_mem_words hmem rfl
  · intro hnil
    rw [slug_eq_ofList, hnil]
    rfl

/-- **Only a name without letters and digits has an empty slug.** Such are the names in other
alphabets, and names of signs. -/
theorem slug_eq_empty_iff (name : String) :
    slug name = "" ↔ ∀ c ∈ name.toList, c.isAlphanum = false := by
  rw [slug_eq_empty_iff_words, words_eq_nil_iff]

/-- **Names have one slug when they have the same words.** What stands between the words does not
matter, nor does their case. -/
theorem slug_eq_slug_iff (name name' : String) :
    slug name = slug name' ↔ words name = words name' := by
  refine ⟨fun hslug => ?_, fun hwords => by rw [slug_eq_ofList, slug_eq_ofList, hwords]⟩
  by_cases hnil : words name = []
  · have hempty := (slug_eq_empty_iff_words name).2 hnil
    rw [hslug, slug_eq_empty_iff_words] at hempty
    rw [hnil, hempty]
  · have hne : words name' ≠ [] := by
      rwa [ne_eq, ← slug_eq_empty_iff_words, ← hslug, slug_eq_empty_iff_words]
    rw [← splitOn_slug hnil, ← splitOn_slug hne, hslug]

/-! ## Slugs of slugs -/

/-- What separators are is asked of the members alone. -/
theorem splitOnP_congr {α : Type} {p q : α → Bool} {xs : List α} (h : ∀ x ∈ xs, p x = q x) :
    xs.splitOnP p = xs.splitOnP q := by
  induction xs with
  | nil => rw [List.splitOnP_nil, List.splitOnP_nil]
  | cons x xs ih =>
    obtain ⟨hx, hxs⟩ := List.forall_mem_cons.1 h
    rw [List.splitOnP_cons_eq_if_modifyHead, List.splitOnP_cons_eq_if_modifyHead, hx, ih hxs]

/-- Without capitals no hyphens are put before words. -/
theorem hyphenateWords_of_small {cs : List Char} (h : ∀ c ∈ cs, c.isUpper = false)
    (inWord : Bool) : hyphenateWords inWord cs = cs := by
  induction inWord, cs using hyphenateWords.induct with
  | case1 => rfl
  | case2 inWord c u l rest hword ih =>
    rw [hyphenateWords, if_pos hword, ih fun d hd => h d (List.mem_cons_of_mem _ hd)]
  | case3 inWord c u l rest hword hstart ih =>
    simp [h u (by simp)] at hstart
  | case4 inWord c u l rest hword hstart ih =>
    rw [hyphenateWords, if_neg hword, if_neg hstart, ih fun d hd => h d (List.mem_cons_of_mem _ hd)]
  | case5 inWord c rest hshort ih =>
    rw [hyphenateWords.eq_3 _ _ _ hshort, ih fun d hd => h d (List.mem_cons_of_mem _ hd)]

/-- Nothing is separated where there are no capitals. -/
theorem hyphenateCapitals_of_small {cs : List Char} (h : ∀ c ∈ cs, c.isUpper = false) :
    hyphenateCapitals cs = cs := by
  induction cs using hyphenateCapitals.induct with
  | case1 c u rest hcapital ih => simp [h u (by simp)] at hcapital
  | case2 c u rest hcapital ih =>
    rw [hyphenateCapitals, if_neg hcapital, ih fun d hd => h d (List.mem_cons_of_mem _ hd)]
  | case3 cs hshort => rw [hyphenateCapitals.eq_2 _ hshort]

/-- The words of a slug are of small letters and digits. -/
theorem isSmall_of_mem_words {name : String} {word : List Char} (h : word ∈ words name) :
    ∀ c ∈ word, c.isLower = true ∨ c.isDigit = true := by
  obtain ⟨part, hpart, rfl⟩ := List.mem_map.1 h
  intro c hc
  obtain ⟨d, hd, rfl⟩ := List.mem_map.1 hc
  have hword := mem_parts hpart d hd
  rw [isAlphanum_iff] at hword
  rw [isLower_iff, isDigit_iff, toNat_toLower]
  split <;> omega

/-- **The words of a slug are those of the name.** The hyphens cut the words apart again. -/
theorem words_slug (name : String) : words (slug name) = words name := by
  by_cases hnil : words name = []
  · rw [(slug_eq_empty_iff_words name).2 hnil, hnil]
    rfl
  have hsmall : ∀ c ∈ (slug name).toList, c.isUpper = false := by
    intro c hc
    have hnot : ¬(c.isUpper = true) := by
      rw [isUpper_iff]
      rw [slug_eq_ofList, String.toList_ofList] at hc
      rcases mem_intercalate hc with hc | ⟨word, hword, hc⟩
      · rw [List.mem_singleton.1 hc]
        decide
      · have hc := isSmall_of_mem_words hword c hc
        rw [isLower_iff, isDigit_iff] at hc
        omega
    simpa using hnot
  -- Small letters and digits are parts of words, so that a slug is cut at its hyphens only.
  have hsplit : (slug name).toList.splitOnP (fun c => !isWordPart c) = words name := by
    rw [← splitOn_slug hnil]
    refine splitOnP_congr fun c hc => ?_
    rcases mem_slug hc with rfl | hc
    · rfl
    · have hne : c ≠ '-' := by
        rintro rfl
        exact absurd hc (by decide)
      simp [isWordPart, hc, hne]
  have hparts : parts (slug name).toList = words name := by
    rw [parts, hsplit]
    exact List.filter_eq_self.2 fun word hword => by simpa using ne_nil_of_mem_words hword
  rw [words, hyphenateWords_of_small hsmall, hyphenateCapitals_of_small hsmall, hparts]
  -- The words are small already.
  refine (List.map_congr_left fun word hword => ?_).trans (List.map_id _)
  refine (List.map_congr_left fun c hc => ?_).trans (List.map_id _)
  have hc := isSmall_of_mem_words hword c hc
  rw [isLower_iff, isDigit_iff] at hc
  rw [← Char.toNat_inj, toNat_toLower, if_neg (by omega)]
  rfl

/-- **A slug is its own slug**: its words are separated already, and small. -/
theorem slug_slug (name : String) : slug (slug name) = slug name :=
  (slug_eq_slug_iff _ _).2 (words_slug name)

/-! ## The shape of derived names -/

/-- Words of small letters and digits with hyphens between them. -/
def IsKebab (s : String) : Prop :=
  ∃ words : List String, words ≠ [] ∧ s = "-".intercalate words ∧
    ∀ word ∈ words, word ≠ "" ∧ ∀ c ∈ word.toList, c.isLower = true ∨ c.isDigit = true

/-- Letters and digits after a capital. -/
def IsPascal (s : String) : Prop :=
  ∃ c cs, s.toList = c :: cs ∧ c.isUpper = true ∧ ∀ d ∈ cs, d.isAlphanum = true

/-- Letters and digits after a small letter. -/
def IsCamel (s : String) : Prop :=
  ∃ c cs, s.toList = c :: cs ∧ c.isLower = true ∧ ∀ d ∈ cs, d.isAlphanum = true

/-- A slug is empty or written in kebab case. -/
theorem slug_eq_empty_or_isKebab (name : String) : slug name = "" ∨ IsKebab (slug name) := by
  by_cases hnil : words name = []
  · exact .inl ((slug_eq_empty_iff_words name).2 hnil)
  · refine .inr ⟨(words name).map String.ofList, by simpa using hnil, ?_, ?_⟩
    · rw [← String.toList_inj, slug_eq_ofList, String.toList_ofList, String.toList_intercalate,
        List.map_map]
      congr 1
      exact ((List.map_congr_left fun cs _ => String.toList_ofList).trans (List.map_id _)).symm
    · refine List.forall_mem_map.2 fun word hword => ⟨fun hempty => ?_, ?_⟩
      · exact ne_nil_of_mem_words hword (by simpa using congrArg String.toList hempty)
      · rw [String.toList_ofList]
        exact isSmall_of_mem_words hword

/-- A letter made big is big. -/
theorem isUpper_toUpper {c : Char} (h : c.isAlphanum = true) (hdigit : c.isDigit = false) :
    c.toUpper.isUpper = true := by
  have hnot : ¬(c.isDigit = true) := by simp [hdigit]
  rw [isAlphanum_iff] at h
  rw [isDigit_iff] at hnot
  rw [isUpper_iff, toNat_toUpper]
  split <;> omega

/-- A name of capitalised words starts with a capital. -/
theorem exists_pascal_eq_cons (cs : List Char) :
    ∃ c rest, pascal cs = c :: rest ∧ c.isUpper = true := by
  rw [pascal]
  cases hparts : parts cs with
  | nil => exact ⟨'E', [], rfl, by decide⟩
  | cons part rest =>
    have hmem : part ∈ parts cs := hparts ▸ List.mem_cons_self
    obtain ⟨c, part, rfl⟩ := List.exists_cons_of_ne_nil
      (by simpa using (List.mem_filter.1 hmem).2 : part ≠ [])
    have hc : c.isAlphanum = true := mem_parts hmem c List.mem_cons_self
    rw [List.flatMap_cons, capital, List.cons_append, letterFirst]
    cases hdigit : c.toUpper.isDigit with
    | true => exact ⟨'E', _, if_pos rfl, by decide⟩
    | false =>
      refine ⟨_, _, if_neg Bool.false_ne_true, isUpper_toUpper hc ?_⟩
      have hnot : ¬(c.toUpper.isDigit = true) := by simp [hdigit]
      rw [isDigit_iff, toNat_toUpper] at hnot
      rw [← Bool.not_eq_true, isDigit_iff]
      split at hnot <;> omega

/-- **The name of a component starts with a capital.** A name that would start with a digit, or have
nothing in it, gets a letter in front. -/
theorem isPascal_component (name : String) : IsPascal (component name) := by
  obtain ⟨c, rest, hpascal, hc⟩ := exists_pascal_eq_cons name.toList
  refine ⟨c, rest, by rw [component, String.toList_ofList, hpascal], hc, fun d hd => ?_⟩
  exact mem_pascal (hpascal ▸ List.mem_cons_of_mem c hd)

/-- **The name of a function starts with a small letter.** The rest of it is as in the name of the
component. -/
theorem isCamel_function (name : String) : IsCamel (function name) := by
  obtain ⟨c, rest, hpascal, hc⟩ := exists_pascal_eq_cons name.toList
  have hname : (function name).toList = c.toLower :: rest := by
    rw [function, String.toList_ofList, hpascal, small]
  refine ⟨c.toLower, rest, hname, ?_, fun d hd => ?_⟩
  · rw [isUpper_iff] at hc
    rw [isLower_iff, toNat_toLower, if_pos hc]
    omega
  · exact mem_pascal (hpascal ▸ List.mem_cons_of_mem c hd)

end FormScaffold.Naming
