import FormScaffold.Proofs.Text.Recasting
import FormScaffold.Proofs.Text.Stacking
import FormScaffold.Text.CodePoint
import Mathlib.Algebra.GroupWithZero.Nat

/-! # Code points and bytes

A text is turned into bytes and back. Spelling its marks is undone by reading them, so that a text
has bytes exactly when it is the spelling of some characters, and every text that is read from bytes
is one.

* **`plain?_eq_some_iff`** — reading the spellings of a text undoes spelling it;
* **`ofUtf8?_eq_some_iff`** — the bytes of a text are those that it is read from, and no others;
* `ofUtf8?_bytes`, `bytes_of_ofUtf8?` — writing and reading a text, reading and writing it;
* **`IsSpelled`** — texts that have bytes; they may be put together, cut behind any character but
  the mark, and put in another line ending. -/

namespace FormScaffold.Text

/-! ## Spellings -/

/-- No characters are spelled by none. -/
@[simp] theorem spelled_nil : spelled [] = [] := rfl

/-- A text is spelled character by character. -/
theorem spelled_cons (c : Char) (cs : List Char) : spelled (c :: cs) = spellChar c ++ spelled cs :=
  List.flatMap_cons

/-- The spelling of two texts one behind the other. -/
theorem spelled_append (cs ds : List Char) : spelled (cs ++ ds) = spelled cs ++ spelled ds :=
  List.flatMap_append

/-- A character that is no mark is read as itself. -/
theorem plain?_cons {c : Char} (hc : c ≠ mark) (cs : List Char) :
    plain? (c :: cs) = (plain? cs).map (c :: ·) := by
  cases cs <;> rw [plain?.eq_def] <;> exact if_neg (by simpa using hc)

/-- A mark with the end mark behind it is read as the mark. -/
theorem plain?_mark (cs : List Char) :
    plain? (mark :: endMark :: cs) = (plain? cs).map (mark :: ·) := rfl

/-- **Reading the spellings of a text undoes spelling it**: a text can be read as characters exactly
when it is their spelling. -/
theorem plain?_eq_some_iff {cs ds : List Char} : plain? cs = some ds ↔ cs = spelled ds := by
  constructor
  · intro h
    fun_induction plain? cs generalizing ds with
    | case1 =>
      obtain rfl := Option.some.inj h
      rfl
    | case2 c hc d rest hd ih =>
      obtain ⟨es, hes, rfl⟩ := Option.map_eq_some_iff.1 h
      obtain rfl : c = mark := by simpa using hc
      obtain rfl : d = endMark := by simpa using hd
      rw [spelled_cons, ← ih hes]
      rfl
    | case3 => exact absurd h (by simp)
    | case4 => exact absurd h (by simp)
    | case5 c cs hc ih =>
      obtain ⟨es, hes, rfl⟩ := Option.map_eq_some_iff.1 h
      rw [spelled_cons, ← ih hes, spellChar, if_neg hc]
      rfl
  -- Each character is read back by its first mark, by induction on the text that was spelled.
  · rintro rfl
    induction ds with
    | nil => rfl
    | cons d ds ih =>
      rw [spelled_cons]
      by_cases hd : d = mark
      · rw [hd, show spellChar mark = [mark, endMark] from rfl, List.cons_append,
          List.singleton_append, plain?_mark, ih]
        rfl
      · rw [spellChar, if_neg (by simpa using hd), List.singleton_append, plain?_cons hd, ih]
        rfl

/-! ## Texts that have bytes -/

/-- The text is the spelling of some characters: no half of a surrogate pair stands alone in it. -/
def IsSpelled (cs : List Char) : Prop := ∃ ds, cs = spelled ds

/-- A text is the spelling of characters just when it can be read as such. -/
theorem isSpelled_iff_isSome {cs : List Char} : IsSpelled cs ↔ (plain? cs).isSome = true := by
  rw [Option.isSome_iff_exists]
  exact exists_congr fun ds => plain?_eq_some_iff.symm

/-- A text has bytes exactly when it is spelled. -/
theorem isPaired_iff {s : String} : isPaired s = true ↔ IsSpelled s.toList :=
  isSpelled_iff_isSome.symm

instance (cs : List Char) : Decidable (IsSpelled cs) := decidable_of_iff _ isSpelled_iff_isSome.symm

/-- The empty text has bytes. -/
@[simp] theorem isSpelled_nil : IsSpelled [] := ⟨[], rfl⟩

/-- A character that is no mark in front of a text changes nothing. -/
theorem isSpelled_cons {c : Char} (hc : c ≠ mark) {cs : List Char} :
    IsSpelled (c :: cs) ↔ IsSpelled cs := by
  rw [isSpelled_iff_isSome, isSpelled_iff_isSome, plain?_cons hc, Option.isSome_map]

/-- Texts that have bytes one behind the other. -/
theorem IsSpelled.append {cs ds : List Char} (hcs : IsSpelled cs) (hds : IsSpelled ds) :
    IsSpelled (cs ++ ds) := by
  obtain ⟨es, rfl⟩ := hcs
  obtain ⟨fs, rfl⟩ := hds
  exact ⟨es ++ fs, (spelled_append es fs).symm⟩

/-- Texts that have bytes, put together. -/
theorem isSpelled_flatten {ls : List (List Char)} (h : ∀ l ∈ ls, IsSpelled l) :
    IsSpelled ls.flatten := by
  induction ls with
  | nil => exact isSpelled_nil
  | cons l ls ih =>
    obtain ⟨hl, hls⟩ := List.forall_mem_cons.1 h
    exact hl.append (ih hls)

/-- **A text that has bytes may be cut** behind any character that is no mark. The mark is the only
character that reads the one behind it. -/
theorem IsSpelled.of_append {cs ds : List Char} (h : IsSpelled (cs ++ ds))
    (hlast : cs.getLast? ≠ some mark) : IsSpelled cs ∧ IsSpelled ds := by
  induction cs using plain?.induct with
  | case1 => exact ⟨isSpelled_nil, h⟩
  | case2 c hc d rest hd ih =>
    obtain rfl : c = mark := by simpa using hc
    obtain rfl : d = endMark := by simpa using hd
    have hrest : rest.getLast? ≠ some mark := by
      intro heq
      rw [List.getLast?_cons_cons, List.getLast?_cons, heq] at hlast
      exact hlast rfl
    obtain ⟨es, hes⟩ := h
    have hread := plain?_eq_some_iff.2 hes
    rw [List.cons_append, List.cons_append, plain?_mark] at hread
    obtain ⟨fs, hfs, -⟩ := Option.map_eq_some_iff.1 hread
    obtain ⟨⟨gs, hgs⟩, hds⟩ := ih ⟨fs, plain?_eq_some_iff.1 hfs⟩ hrest
    exact ⟨⟨mark :: gs, by rw [hgs]; rfl⟩, hds⟩
  | case3 c hc d rest hd =>
    obtain rfl : c = mark := by simpa using hc
    have hnone : plain? (mark :: d :: (rest ++ ds)) = none := if_neg hd
    rw [isSpelled_iff_isSome, List.cons_append, List.cons_append, hnone] at h
    exact absurd h (by simp)
  | case4 c hc =>
    obtain rfl : c = mark := by simpa using hc
    exact absurd rfl hlast
  | case5 c cs hc ih =>
    have hc : c ≠ mark := by simpa using hc
    have hrest : cs.getLast? ≠ some mark := by
      intro heq
      rw [List.getLast?_cons, heq] at hlast
      exact hlast rfl
    rw [List.cons_append, isSpelled_cons hc] at h
    obtain ⟨hcs, hds⟩ := ih h hrest
    exact ⟨(isSpelled_cons hc).2 hcs, hds⟩

/-- No text is shorter than what it spells. -/
theorem length_le_length_spelled (ds : List Char) : ds.length ≤ (spelled ds).length := by
  induction ds with
  | nil => exact Nat.le_refl 0
  | cons d ds ih =>
    have hfirst : 1 ≤ (spellChar d).length := by
      unfold spellChar
      split <;> simp
    rw [spelled_cons, List.length_append, List.length_cons]
    omega

/-- Without marks a text spells its own characters. -/
theorem spelled_eq_self {cs : List Char} (h : mark ∉ cs) : spelled cs = cs := by
  induction cs with
  | nil => rfl
  | cons c cs ih =>
    have hc : c ≠ mark := fun heq => h (heq ▸ List.mem_cons_self)
    rw [spelled_cons, ih fun hmem => h (List.mem_cons_of_mem _ hmem), spellChar,
      if_neg (by simpa using hc), List.singleton_append]

/-- A text without a mark has bytes: its own characters stand for themselves. -/
theorem isPaired_of_notMem {s : String} (h : mark ∉ s.toList) : isPaired s = true :=
  isPaired_iff.2 ⟨s.toList, (spelled_eq_self h).symm⟩

/-! ## Code points -/

/-- A character that is no mark is a code point of its own. -/
theorem codes_cons {c : Char} (hc : c ≠ mark) (cs : List Char) :
    codes (c :: cs) = c.toNat :: codes cs := by
  cases cs <;> rw [codes, units.eq_def] <;> exact congrArg _ (if_neg (by simpa using hc))

/-- A mark and the character behind it are one code point. -/
theorem codes_mark (d : Char) (cs : List Char) :
    codes (mark :: d :: cs) = codeBehindMark d :: codes cs := by
  rw [codes, units, if_pos (by decide), List.map_cons, codes]

/-- **The code points of a text are the first of a longer text**, when what follows starts with a
character that no mark takes for a half. -/
theorem exists_codes_append {c : Char} (hc : codeBehindMark c = mark.toNat) (cs ds : List Char) :
    ∃ more, codes (cs ++ c :: ds) = codes cs ++ more := by
  induction cs using units.induct with
  | case1 => exact ⟨_, rfl⟩
  | case2 m hm d rest ih =>
    obtain rfl : m = mark := by simpa using hm
    obtain ⟨more, hmore⟩ := ih
    refine ⟨more, ?_⟩
    rw [List.cons_append, List.cons_append, codes_mark, codes_mark, hmore, List.cons_append]
  | case3 m hm =>
    -- A mark at the end would take the next character for a half, but still is the mark.
    obtain rfl : m = mark := by simpa using hm
    refine ⟨codes ds, ?_⟩
    rw [List.singleton_append, codes_mark, hc]
    rfl
  | case4 d rest hd ih =>
    have hd : d ≠ mark := by simpa using hd
    obtain ⟨more, hmore⟩ := ih
    refine ⟨more, ?_⟩
    rw [List.cons_append, codes_cons hd, codes_cons hd, hmore, List.cons_append]

/-- **A text with a slash in it can name files when what is before and behind the slash can**: a
mark in front of the slash is the mark. -/
theorem all_codes_append_slash (cs ds : List Char) :
    ((codes (cs ++ '/' :: ds)).all fun n => !isHalf n || isByteHalf n) =
      (((codes cs).all fun n => !isHalf n || isByteHalf n) &&
        (codes ds).all fun n => !isHalf n || isByteHalf n) := by
  have hslash : '/' ≠ mark := by decide
  induction cs using units.induct with
  | case1 =>
    rw [List.nil_append, codes_cons hslash]
    rfl
  | case2 m hm d rest ih =>
    obtain rfl : m = mark := by simpa using hm
    rw [List.cons_append, List.cons_append, codes_mark, codes_mark, List.all_cons, List.all_cons,
      ih, Bool.and_assoc]
  -- A mark at the end reads the slash behind it, and gives the same code as without.
  | case3 m hm =>
    obtain rfl : m = mark := by simpa using hm
    have hlast : codes [mark] = [mark.toNat] := by decide
    have hslash' : codeBehindMark '/' = mark.toNat := by decide
    rw [List.singleton_append, codes_mark, hlast, hslash', List.all_cons, List.all_cons,
      List.all_nil, Bool.and_true]
  | case4 d rest hd ih =>
    have hd : d ≠ mark := by simpa using hd
    rw [List.cons_append, codes_cons hd, codes_cons hd, List.all_cons, List.all_cons, ih,
      Bool.and_assoc]

/-- A character is no half of a surrogate pair. -/
theorem isHalf_toNat (c : Char) : isHalf c.toNat = false := by
  have hvalid := c.valid
  have hnat : c.toNat = c.val.toNat := rfl
  rw [isHalf, Bool.and_eq_false_iff, decide_eq_false_iff_not, decide_eq_false_iff_not]
  simp only [UInt32.isValidChar, Nat.isValidChar] at hvalid
  omega

/-- Characters that are no mark are the code points of a text. -/
theorem codes_of_notMem {cs : List Char} (h : mark ∉ cs) : codes cs = cs.map Char.toNat := by
  induction cs with
  | nil => rfl
  | cons c cs ih =>
    have hc : c ≠ mark := fun heq => h (heq ▸ List.mem_cons_self)
    rw [codes_cons hc, ih fun hmem => h (List.mem_cons_of_mem _ hmem), List.map_cons]

/-- A text of plain characters can name files. -/
theorem isNamable_of_notMem {s : String} (h : mark ∉ s.toList) : isNamable s = true := by
  rw [isNamable, codes_of_notMem h, List.all_map, List.all_eq_true]
  intro c _
  simp [isHalf_toNat]

/-- The bytes of a text in the names of files are counted code point by code point. -/
theorem weight_eq_sum (s : String) : weight s = ((codes s.toList).map codeWeight).sum := by
  rw [weight, List.sum, List.foldr_map]

/-- In the name of a file a plain text takes the bytes of its characters. -/
theorem weight_of_notMem {s : String} (h : mark ∉ s.toList) :
    weight s = (s.toList.map Char.utf8Size).sum := by
  rw [weight_eq_sum, codes_of_notMem h, List.map_map]
  refine congrArg List.sum (List.map_congr_left fun c _ => ?_)
  simp [codeWeight, isHalf_toNat, Char.ofNat_toNat]

/-- Every character takes a byte at least. -/
theorem length_le_weight_of_notMem {s : String} (h : mark ∉ s.toList) : s.length ≤ weight s := by
  have hsum : ∀ cs : List Char, cs.length ≤ (cs.map Char.utf8Size).sum := by
    intro cs
    induction cs with
    | nil => exact Nat.le_refl 0
    | cons c cs ih =>
      have hc := c.utf8Size_pos
      rw [List.map_cons, List.sum_cons, List.length_cons]
      omega
  rw [weight_of_notMem h, ← String.length_toList]
  exact hsum s.toList

/-- No character takes more than four bytes, so that a plain name of `n` characters is never longer
than `4 * n` bytes. -/
theorem weight_le_of_notMem {s : String} (h : mark ∉ s.toList) : weight s ≤ 4 * s.length := by
  have hsum : ∀ cs : List Char, (cs.map Char.utf8Size).sum ≤ 4 * cs.length := by
    intro cs
    induction cs with
    | nil => exact Nat.le_refl 0
    | cons c cs ih =>
      have hc := c.utf8Size_le_four
      rw [List.map_cons, List.sum_cons, List.length_cons]
      omega
  rw [weight_of_notMem h, ← String.length_toList]
  exact hsum s.toList

/-! ## Lines -/

/-- The mark ends no line. -/
theorem isLineBreak_mark : isLineBreak mark = false := by decide

/-- Lines on top of each other have bytes when the whole text has. -/
theorem IsStacked.isSpelled {ls : List (List Char)} (h : IsStacked ls)
    (hspelled : IsSpelled ls.flatten) : ∀ l ∈ ls, IsSpelled l := by
  induction ls with
  | nil => simp
  | cons l ls ih =>
    obtain ⟨-, hbreak, hls⟩ := isStacked_cons.1 h
    rw [List.flatten_cons] at hspelled
    by_cases hne : ls = []
    · subst hne
      simpa using hspelled
    · -- A break stands between the line and the others, and is no mark.
      have hlast : l.getLast? ≠ some mark := fun heq => by
        obtain ⟨c, hc, hcb⟩ := hbreak hne
        rw [heq] at hc
        rw [← Option.some.inj hc, isLineBreak_mark] at hcb
        exact absurd hcb (by simp)
      obtain ⟨hl, hrest⟩ := hspelled.of_append hlast
      exact List.forall_mem_cons.2 ⟨hl, ih hls hrest⟩

/-- **The lines of a text that has bytes have bytes.** A mark is no line break, so that lines are
never cut behind one. -/
theorem IsSpelled.lines {cs : List Char} (h : IsSpelled cs) : ∀ l ∈ lines cs, IsSpelled l :=
  (isLines_lines cs).isStacked.isSpelled (by rwa [flatten_lines])

/-! ## Line endings -/

/-- Every line feed of a text gets a carriage return before or after the text is spelled. -/
theorem toCarriage_spelled (ds : List Char) :
    toCarriage (spelled ds) = spelled (toCarriage ds) := by
  rw [toCarriage, toCarriage, spelled, spelled, List.flatMap_assoc, List.flatMap_assoc]
  refine List.flatMap_congr fun d _ => ?_
  by_cases hlf : d = '\n'
  · rw [hlf]
    rfl
  · by_cases hd : d = mark
    · rw [hd]
      rfl
    · simp [spellChar, hd, hlf]

/-- Line feeds stand in a spelling where they stand in the text. -/
theorem head?_spelled_eq_lf {ds : List Char} :
    (spelled ds).head? = some '\n' ↔ ds.head? = some '\n' := by
  cases ds with
  | nil => rfl
  | cons d ds =>
    rw [spelled_cons]
    by_cases hd : d = mark
    · simp [hd, spellChar, mark]
    · simp [spellChar, hd]

/-- Carriage returns are dropped before or after the text is spelled. -/
theorem dropCarriage_spelled (ds : List Char) :
    dropCarriage (spelled ds) = spelled (dropCarriage ds) := by
  fun_induction dropCarriage ds with
  | case1 => rfl
  | case2 rest ih =>
    have hpair : spelled ('\r' :: '\n' :: rest) = '\r' :: '\n' :: spelled rest := rfl
    rw [hpair, dropCarriage, ih]
    rfl
  -- The spelling of the mark has no carriage return, and no other character starts with a line
  -- feed.
  | case3 d rest hother ih =>
    have hkept : ∀ {c : Char} {cs : List Char}, (c = '\r' → cs.head? ≠ some '\n') →
        dropCarriage (c :: cs) = c :: dropCarriage cs := by
      intro c cs hc
      rw [dropCarriage]
      rintro rest rfl rfl
      exact hc rfl rfl
    rw [spelled_cons, spelled_cons, ← ih]
    by_cases hd : d = mark
    · have hmark : mark ≠ '\r' ∧ endMark ≠ '\r' := by decide
      rw [hd]
      exact (hkept fun heq => absurd heq hmark.1).trans
        (congrArg (mark :: ·) (hkept fun heq => absurd heq hmark.2))
    · rw [spellChar, if_neg (by simpa using hd)]
      refine hkept fun hcr hlf => ?_
      obtain ⟨es, rfl⟩ := List.head?_eq_some_iff.1 (head?_spelled_eq_lf.1 hlf)
      exact hother es hcr rfl

/-- **A text that has bytes has bytes in another line ending.** Line breaks are neither marks nor
what stands behind them. -/
theorem IsSpelled.recast {cs : List Char} (h : IsSpelled cs) (carriage : Bool) :
    IsSpelled (recast carriage cs) := by
  obtain ⟨ds, rfl⟩ := h
  cases carriage with
  | false => exact ⟨ds, rfl⟩
  | true =>
    refine ⟨toCarriage (dropCarriage ds), ?_⟩
    rw [← toCarriage_spelled, ← dropCarriage_spelled]
    rfl

/-! ## Bytes -/

/-- Characters have the bytes that they are read from. -/
theorem fromUTF8?_eq_some_iff {b : ByteArray} {s : String} :
    String.fromUTF8? b = some s ↔ s.toUTF8 = b := by
  constructor
  · intro h
    unfold String.fromUTF8? at h
    split at h
    · rw [← Option.some.inj h]
      rfl
    · exact absurd h (by simp)
  · rintro rfl
    simp only [String.fromUTF8?, String.toUTF8_eq_toByteArray, dif_pos s.isValidUTF8]
    rfl

/-- **The bytes of a text are those that it is read from**, and no others. -/
theorem ofUtf8?_eq_some_iff {b : ByteArray} {s : String} :
    ofUtf8? b = some s ↔ utf8? s = some b := by
  rw [ofUtf8?, utf8?, Option.map_eq_some_iff, Option.map_eq_some_iff]
  constructor
  · rintro ⟨u, hu, rfl⟩
    refine ⟨u.toList, ?_, ?_⟩
    · rw [String.toList_ofList, plain?_eq_some_iff]
    · rw [String.ofList_toList, fromUTF8?_eq_some_iff.1 hu]
  · rintro ⟨ds, hds, hb⟩
    refine ⟨String.ofList ds, fromUTF8?_eq_some_iff.2 hb, ?_⟩
    rw [String.toList_ofList, ← plain?_eq_some_iff.1 hds, String.ofList_toList]

/-- Whether a text has bytes. -/
theorem isPaired_iff_exists {s : String} : isPaired s = true ↔ ∃ b, utf8? s = some b := by
  simp [isPaired, utf8?, Option.isSome_iff_exists]

/-- **What was written is read back.** A text without bytes is written as none. -/
theorem ofUtf8?_bytes {s : String} (h : isPaired s = true) : ofUtf8? (bytes s) = some s := by
  obtain ⟨b, hb⟩ := isPaired_iff_exists.1 h
  rw [ofUtf8?_eq_some_iff, bytes, hb]
  rfl

/-- **What was read is written back.** Bytes that are a text are the bytes of that text only. -/
theorem bytes_of_ofUtf8? {b : ByteArray} {s : String} (h : ofUtf8? b = some s) : bytes s = b := by
  rw [bytes, ofUtf8?_eq_some_iff.1 h]
  rfl

/-- A text that is read from bytes has these bytes. -/
theorem isPaired_of_ofUtf8? {b : ByteArray} {s : String} (h : ofUtf8? b = some s) :
    isPaired s = true := isPaired_iff_exists.2 ⟨b, ofUtf8?_eq_some_iff.1 h⟩

/-- A text without bytes is written as none. -/
theorem bytes_of_not_isPaired {s : String} (h : isPaired s = false) :
    bytes s = ByteArray.empty := by
  have hnone : utf8? s = none := by
    cases hs : utf8? s with
    | none => rfl
    | some b => exact absurd (isPaired_iff_exists.2 ⟨b, hs⟩) (by simp [h])
  rw [bytes, hnone]
  rfl

end FormScaffold.Text
