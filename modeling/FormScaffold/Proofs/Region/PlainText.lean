import FormScaffold.Proofs.Region.Pieces
import FormScaffold.Proofs.Text.Words
import Mathlib.Data.List.TakeDrop

/-! # Text that holds no marker

A body between markers must not hold a marker line of its own, and must break its lines with line
feeds alone.

* **`IsPlain text`** — both of that; it is kept by putting texts together at the ends of lines;
* **`Leads p cs q`** — reading the characters in place `p` of a line leads to place `q`, past no
  break but line feeds and past no comment that could be a marker;
* `isPlain_of_leads` — text that is read from the start of a line is plain;
* `isPlain_arrow` — so is a comment with an arrow between two texts. -/

namespace FormScaffold.Region

open Text

/-! ## Plain text -/

/-- No line is a marker line, and every break is a line feed. -/
structure IsPlain (text : List Char) : Prop where
  lines : ∀ l ∈ Text.lines text, isMarkerLine l = false
  breaks : ∀ c ∈ text, isLineBreak c = true → c = '\n'

/-- Whole lines: nothing, or a text that ends in a line feed. -/
def IsWhole (text : List Char) : Prop := text = [] ∨ text.getLast? = some '\n'

/-- Whole lines one behind the other are whole lines. -/
theorem isWhole_append {a b : List Char} (ha : IsWhole a) (hb : IsWhole b) : IsWhole (a ++ b) := by
  rcases hb with rfl | hb
  · rwa [List.append_nil]
  · right
    rw [List.getLast?_append, hb]
    rfl

/-- Lines of whole lines and of what follows. -/
theorem lines_append_of_isWhole {a : List Char} (ha : IsWhole a) (b : List Char) :
    Text.lines (a ++ b) = Text.lines a ++ Text.lines b := by
  rcases ha with rfl | ha
  · rfl
  · exact lines_append (endsInBreak_of_lf ha) (not_fuses_of_lf ha b)

/-- The empty text is plain. -/
theorem isPlain_nil : IsPlain [] := ⟨by simp, by simp⟩

/-- **Plain texts after plain whole lines** make a plain text, and only they do. The first text has
to end its last line, for otherwise the two would make a line together that is in neither. -/
theorem isPlain_append {a b : List Char} (ha : IsWhole a) :
    IsPlain (a ++ b) ↔ IsPlain a ∧ IsPlain b := by
  have hlines := lines_append_of_isWhole ha b
  constructor
  · rintro ⟨h1, h2⟩
    rw [hlines] at h1
    exact ⟨⟨fun l hl => h1 l (List.mem_append_left _ hl),
        fun c hc => h2 c (List.mem_append_left _ hc)⟩,
      ⟨fun l hl => h1 l (List.mem_append_right _ hl),
        fun c hc => h2 c (List.mem_append_right _ hc)⟩⟩
  · rintro ⟨⟨h1, h2⟩, ⟨h3, h4⟩⟩
    refine ⟨?_, ?_⟩
    · intro l hl
      rw [hlines] at hl
      rcases List.mem_append.1 hl with hl | hl
      · exact h1 l hl
      · exact h3 l hl
    · intro c hc
      rcases List.mem_append.1 hc with hc | hc
      · exact h2 c hc
      · exact h4 c hc

/-! ## Places of a line -/

/-- How much of a line was read. -/
inductive LinePlace where
  /-- Nothing. -/
  | start
  /-- Nothing but indentation. -/
  | indent
  /-- One slash. -/
  | slash
  /-- Two slashes. -/
  | slashes
  /-- Two slashes and a blank. -/
  | remark
  /-- More than that. -/
  | inside
  deriving DecidableEq, Repr

/-- The place after one more character. A comment of two slashes has to go on with a blank and a
letter, which no marker does; no line may start with `#`, where an annotation could hide what
starts it. -/
def LinePlace.next : LinePlace → Char → Option LinePlace
  | .start, c =>
    if c == '\n' then some .start
    else if isLineBreak c || c == '#' then none
    else if isIndent c then some .indent
    else if c == '/' then some .slash
    else some .inside
  | .indent, c =>
    if c == '\n' then some .start
    else if isLineBreak c || c == '#' then none
    else if isIndent c then some .indent
    else if c == '/' then some .slash
    else some .inside
  | .slash, c => if c == '*' then some .inside else if c == '/' then some .slashes else none
  | .slashes, c => if c == ' ' then some .remark else none
  | .remark, c => if c.isAlpha then some .inside else none
  | .inside, c => if c == '\n' then some .start else if isLineBreak c then none else some .inside

/-- The place after characters, unless they cannot be read. -/
def LinePlace.after (p : LinePlace) : List Char → Option LinePlace
  | [] => some p
  | c :: cs => (p.next c).bind (·.after cs)

/-- **Reading the characters in one place leads to the other.** -/
def Leads (p : LinePlace) (cs : List Char) (q : LinePlace) : Prop := p.after cs = some q

instance (p : LinePlace) (cs : List Char) (q : LinePlace) : Decidable (Leads p cs q) :=
  inferInstanceAs (Decidable (_ = _))

/-- Nothing leads from a place to itself. -/
theorem leads_nil (p : LinePlace) : Leads p [] p := rfl

/-- The first character leads to the place from where the others lead on. -/
theorem leads_cons {p q : LinePlace} {c : Char} {cs : List Char} :
    Leads p (c :: cs) q ↔ ∃ p', p.next c = some p' ∧ Leads p' cs q := by
  simp only [Leads, LinePlace.after, Option.bind_eq_some_iff]

/-- Texts one behind the other lead to where the second leads from where the first has led. -/
theorem leads_append {p r : LinePlace} {as bs : List Char} :
    Leads p (as ++ bs) r ↔ ∃ q, Leads p as q ∧ Leads q bs r := by
  induction as generalizing p with
  | nil =>
    constructor
    · intro h
      exact ⟨p, leads_nil p, h⟩
    · rintro ⟨q, hq, h⟩
      obtain rfl : p = q := Option.some.inj hq
      exact h
  | cons c as ih =>
    rw [List.cons_append, leads_cons]
    constructor
    · rintro ⟨p', hp', h⟩
      obtain ⟨q, hq, hr⟩ := ih.1 h
      exact ⟨q, leads_cons.2 ⟨p', hp', hq⟩, hr⟩
    · rintro ⟨q, hq, hr⟩
      obtain ⟨p', hp', hq⟩ := leads_cons.1 hq
      exact ⟨p', hp', ih.2 ⟨q, hq, hr⟩⟩

/-- One text leads on from where the other has led. -/
theorem Leads.trans {p q r : LinePlace} {as bs : List Char} (h1 : Leads p as q)
    (h2 : Leads q bs r) :
    Leads p (as ++ bs) r := leads_append.2 ⟨q, h1, h2⟩

/-- Inside a line every text without breaks is read. -/
theorem leads_inside {cs : List Char} (h : ∀ c ∈ cs, isLineBreak c = false) :
    Leads .inside cs .inside := by
  induction cs with
  | nil => exact leads_nil _
  | cons c cs ih =>
    refine leads_cons.2 ⟨.inside, ?_, ih fun d hd => h d (List.mem_cons_of_mem _ hd)⟩
    have hc := h c List.mem_cons_self
    have hlf : (c == '\n') = false := by
      rw [beq_eq_false_iff_ne]
      rintro rfl
      exact absurd hc (by decide)
    simp [LinePlace.next, hlf, hc]

/-! ## Text that is read is plain -/

/-- Of the breaks only line feeds are read. -/
theorem eq_lf_of_next {p q : LinePlace} {c : Char} (h : p.next c = some q)
    (hc : isLineBreak c = true) :
    c = '\n' ∧ q = .start := by
  -- Where a line goes on, only a line feed leads back to the start; elsewhere a break leads
  -- nowhere.
  cases p with
  | start =>
    by_cases hlf : c = '\n'
    · simp_all [LinePlace.next]
    · simp [LinePlace.next, hlf, hc] at h
  | indent =>
    by_cases hlf : c = '\n'
    · simp_all [LinePlace.next]
    · simp [LinePlace.next, hlf, hc] at h
  | slash =>
    by_cases hstar : c = '*'
    · exact absurd hc (by rw [hstar]; decide)
    · by_cases hslash : c = '/'
      · exact absurd hc (by rw [hslash]; decide)
      · simp [LinePlace.next, hstar, hslash] at h
  | slashes =>
    by_cases hblank : c = ' '
    · exact absurd hc (by rw [hblank]; decide)
    · simp [LinePlace.next, hblank] at h
  | remark =>
    by_cases hletter : c.isAlpha = true
    · rw [isLineBreak_of_isAlphanum (Bool.or_eq_true_iff.2 (.inl hletter))] at hc
      exact absurd hc (by decide)
    · simp [LinePlace.next, hletter] at h
  | inside =>
    by_cases hlf : c = '\n'
    · simp_all [LinePlace.next]
    · simp [LinePlace.next, hlf, hc] at h

/-- Text that is read breaks lines by line feeds alone. -/
theorem breaks_of_leads {p q : LinePlace} {cs : List Char} (h : Leads p cs q) :
    ∀ c ∈ cs, isLineBreak c = true → c = '\n' := by
  induction cs generalizing p with
  | nil => simp
  | cons d cs ih =>
    obtain ⟨p', hp', hcs⟩ := leads_cons.1 h
    intro c hc hbreak
    rcases List.mem_cons.1 hc with rfl | hc
    · exact (eq_lf_of_next hp' hbreak).1
    · exact ih hcs c hc hbreak

/-- Every line of a text that is read is read from its start; the first line from where the text
is read. -/
theorem leads_lines {p q : LinePlace} {cs : List Char} (h : Leads p cs q) :
    (∀ l ∈ (Text.lines cs).head?, ∃ r, Leads p l r) ∧
      ∀ l ∈ (Text.lines cs).tail, ∃ r, Leads .start l r := by
  induction cs using Text.lines.induct generalizing p with
  | case1 => simp
  | case2 rest ih =>
    obtain ⟨p', hp', -⟩ := leads_cons.1 h
    exact absurd (eq_lf_of_next hp' isLineBreak_cr).1 (by decide)
  | case3 c rest hpair hbreak ih =>
    -- Only a line feed is read as a break, and the next line is read from its start.
    obtain ⟨p', hp', hrest⟩ := leads_cons.1 h
    obtain ⟨rfl, rfl⟩ := eq_lf_of_next hp' hbreak
    obtain ⟨hhead, htail⟩ := ih hrest
    rw [lines_break hbreak (not_fuses_of_lf rfl rest)]
    refine ⟨?_, ?_⟩
    · rintro l ⟨⟩
      exact ⟨.start, leads_cons.2 ⟨.start, hp', leads_nil _⟩⟩
    · intro l hl
      rw [List.tail_cons] at hl
      cases hls : Text.lines rest with
      | nil => rw [hls] at hl; simp at hl
      | cons m ms =>
        rw [hls] at hl hhead htail
        rcases List.mem_cons.1 hl with rfl | hl
        · exact hhead l rfl
        · exact htail l hl
  | case4 c rest hpair hplain ih =>
    obtain ⟨p', hp', hrest⟩ := leads_cons.1 h
    obtain ⟨hhead, htail⟩ := ih hrest
    rw [lines_cons (by simpa using hplain)]
    cases hls : Text.lines rest with
    | nil =>
      refine ⟨?_, by simp [consLine]⟩
      rintro l ⟨⟩
      exact ⟨p', leads_cons.2 ⟨p', hp', leads_nil _⟩⟩
    | cons m ms =>
      rw [hls] at hhead htail
      refine ⟨?_, htail⟩
      rintro l ⟨⟩
      obtain ⟨r, hr⟩ := hhead m rfl
      exact ⟨r, leads_cons.2 ⟨p', hp', hr⟩⟩

/-- The breaks that a line loses: none, a line feed, a carriage return, or both. -/
def plainBreaks : List (List Char) := [[], ['\n'], ['\r'], ['\r', '\n']]

/-- A line without its break is a start of the line. -/
theorem stripBreak_append (l : List Char) : ∃ rest ∈ plainBreaks, stripBreak l ++ rest = l := by
  unfold stripBreak
  split
  · rename_i rest h
    exact ⟨['\r', '\n'], by decide, by rw [← List.reverse_reverse l, h]; simp⟩
  · rename_i rest _ h
    exact ⟨['\n'], by decide, by rw [← List.reverse_reverse l, h]; simp⟩
  · rename_i rest h
    exact ⟨['\r'], by decide, by rw [← List.reverse_reverse l, h]; simp⟩
  · exact ⟨[], by decide, List.append_nil l⟩

/-- What a line with a name after a tag consists of. -/
theorem nameAfter_eq_some {tag line : List Char} {name : String}
    (h : nameAfter tag line = some name) :
    ∃ indent word rest, line = indent ++ (tag ++ (word ++ rest)) ∧
      (∀ c ∈ indent, isIndent c = true) ∧ word ≠ [] ∧ (∀ c ∈ word, isBlank c = false) ∧
      (∀ c ∈ rest, isIndent c = true) ∧ name = String.ofList word := by
  unfold nameAfter at h
  simp only at h
  split at h
  · rename_i htag
    obtain ⟨tail, htail⟩ := List.isPrefixOf_iff_prefix.1 htag
    have hdrop : (line.dropWhile isIndent).drop tag.length = tail := by
      rw [← htail, List.drop_left]
    -- Behind the tag stand the name and, to the end of the line, blanks.
    rw [hdrop, List.span_eq_takeWhile_dropWhile] at h
    split at h
    · simp at h
    · rename_i hgood
      simp only [Bool.or_eq_true, not_or, Bool.not_eq_true, List.isEmpty_eq_false_iff,
        Bool.not_eq_false', List.all_eq_true] at hgood
      refine ⟨line.takeWhile isIndent, tail.takeWhile isNamePart, tail.dropWhile isNamePart,
        ?_, ?_, hgood.1, ?_, hgood.2, (Option.some.inj h).symm⟩
      · rw [List.takeWhile_append_dropWhile, htail, List.takeWhile_append_dropWhile]
      · exact fun c hc => List.mem_takeWhile_imp hc
      · intro c hc
        simpa [isNamePart] using List.mem_takeWhile_imp hc
  · simp at h

/-- After indentation more of a line is read as at its start. -/
theorem leads_indent {cs : List Char} (h : cs ≠ []) {q : LinePlace} :
    Leads .indent cs q ↔ Leads .start cs q := by
  cases cs with
  | nil => exact absurd rfl h
  | cons c cs => rw [leads_cons, leads_cons]; rfl

/-- Indentation is read at the start of a line, and what follows as if it stood there. -/
theorem leads_of_isIndent {front : List Char} (h : ∀ c ∈ front, isIndent c = true)
    {cs : List Char} (hcs : cs ≠ []) {q : LinePlace} (hq : Leads .start (front ++ cs) q) :
    Leads .start cs q := by
  induction front with
  | nil => exact hq
  | cons d front ih =>
    obtain ⟨p, hp, hrest⟩ := leads_cons.1 hq
    have hd : LinePlace.next .start d = some .indent := by
      rcases (by simpa [isIndent] using h d List.mem_cons_self : d = ' ' ∨ d = '\t') with rfl | rfl
        <;> rfl
    obtain rfl : LinePlace.indent = p := Option.some.inj (hd.symm.trans hp)
    exact ih (fun e he => h e (List.mem_cons_of_mem _ he))
      ((leads_indent (List.append_ne_nil_of_right_ne_nil _ hcs)).1 hrest)

/-- A line that is read has no tag, since its comments start with letters. -/
theorem nameAfter_eq_none_of_leads {l : List Char} {q : LinePlace} (h : Leads .start l q) {c : Char}
    (hc : c.isAlpha = false) (tag : List Char) :
    nameAfter ('/' :: '/' :: ' ' :: c :: tag) (stripBreak l) = none := by
  cases hname : nameAfter ('/' :: '/' :: ' ' :: c :: tag) (stripBreak l) with
  | none => rfl
  | some name =>
    obtain ⟨indent, word, after, hline, hindent, -⟩ := nameAfter_eq_some hname
    obtain ⟨break', -, hbreak⟩ := stripBreak_append l
    rw [← hbreak, hline, List.append_assoc] at h
    exact absurd (leads_of_isIndent hindent (by simp) h)
      (by simp [Leads, LinePlace.after, LinePlace.next, isLineBreak, isIndent, hc])

/-- A line that is read from its start is no marker. -/
theorem ofLine_of_leads {l : List Char} {q : LinePlace} (h : Leads .start l q) :
    Mark.ofLine l = .plain := by
  have hbegin : nameAfter beginTag (stripBreak l) = none :=
    nameAfter_eq_none_of_leads h (by decide : Char.isAlpha '>' = false) _
  have hend : nameAfter endTag (stripBreak l) = none :=
    nameAfter_eq_none_of_leads h (by decide : Char.isAlpha '<' = false) _
  simp only [Mark.ofLine, hbegin, hend]

/-- **Text that is read from the start of a line is plain.** The reading goes through places of a
line, and no way leads through what a marker starts with. -/
theorem isPlain_of_leads {cs : List Char} {q : LinePlace} (h : Leads .start cs q) : IsPlain cs := by
  refine ⟨?_, breaks_of_leads h⟩
  intro l hl
  obtain ⟨hhead, htail⟩ := leads_lines h
  rw [isMarkerLine_eq_false]
  cases hls : Text.lines cs with
  | nil => rw [hls] at hl; simp at hl
  | cons m ms =>
    rw [hls] at hl hhead htail
    rcases List.mem_cons.1 hl with rfl | hl
    · obtain ⟨r, hr⟩ := hhead l rfl
      exact ofLine_of_leads hr
    · obtain ⟨r, hr⟩ := htail l hl
      exact ofLine_of_leads hr

/-- Text that is read up to the start of a line consists of whole lines. -/
theorem isWhole_of_leads {cs : List Char} (h : Leads .start cs .start) : IsWhole cs := by
  rcases List.eq_nil_or_concat cs with rfl | ⟨ds, c, rfl⟩
  · exact .inl rfl
  · rw [List.concat_eq_append] at h ⊢
    obtain ⟨p, -, hlast⟩ := leads_append.1 h
    obtain ⟨q, hq, hend⟩ := leads_cons.1 hlast
    obtain rfl : q = .start := Option.some.inj hend
    have hc : c = '\n' := by
      cases p <;> simp only [LinePlace.next] at hq <;> grind
    rw [hc]
    exact .inr List.getLast?_concat

/-! ## Comments with an arrow -/

/-- What indents is blank. -/
theorem isBlank_of_isIndent {c : Char} (h : isIndent c = true) : isBlank c = true := by
  rcases (by simpa [isIndent] using h : c = ' ' ∨ c = '\t') with rfl | rfl <;> decide

/-- The words of a line with a name after a tag are those of the tag and the name. -/
theorem words_of_nameAfter {tag line : List Char} {name : String}
    (h : nameAfter (tag ++ [' ']) line = some name) :
    words line = words tag ++ [name.toList] := by
  obtain ⟨indent, word, rest, rfl, hindent, hne, hword, hrest, rfl⟩ := nameAfter_eq_some h
  have hlast : words (word ++ rest) = [word] := by
    rw [words_append hne hword fun c hc => isBlank_of_isIndent (hrest c (List.mem_of_mem_head? hc)),
      words_of_blank fun c hc => isBlank_of_isIndent (hrest c hc)]
  have hfront : words (tag ++ ' ' :: (word ++ rest)) = words tag ++ [word] := by
    rw [words_append_cons tag (by decide), hlast]
  rw [List.append_assoc, List.singleton_append, String.toList_ofList, ← hfront]
  clear h hfront
  induction indent with
  | nil => rfl
  | cons c indent ih =>
    rw [List.cons_append, words_cons (isBlank_of_isIndent (hindent c List.mem_cons_self)),
      ih fun d hd => hindent d (List.mem_cons_of_mem _ hd)]

/-- An arrow stands where a marker has its tag, or behind its only name. -/
theorem append_arrow_ne {as bs : List (List Char)} {x y z arrow : List Char} (hx : arrow ≠ x)
    (hy : arrow ≠ y) (hbs : bs ≠ []) : as ++ arrow :: bs ≠ [x, y, z] := by
  intro h
  rcases as with _ | ⟨a, _ | ⟨b, _ | ⟨c, as⟩⟩⟩
  · exact hx (List.cons.inj h).1
  · exact hy (List.cons.inj (List.cons.inj h).2).1
  · exact hbs (List.cons.inj (List.cons.inj (List.cons.inj h).2).2).2
  · have := congrArg List.length h
    simp at this

/-- A comment with an arrow before a text that is not blank is no marker line, whatever the two
texts are. -/
theorem ofLine_arrow {a b : List Char} (hb : words b ≠ []) (hlast : ∀ c ∈ b.getLast?, c ≠ '\r') :
    Mark.ofLine ("// ".toList ++ a ++ " -> ".toList ++ b ++ ['\n']) = .plain := by
  have hstrip : stripBreak ("// ".toList ++ a ++ " -> ".toList ++ b ++ ['\n']) =
      "// ".toList ++ a ++ " -> ".toList ++ b := by
    refine stripBreak_lf fun c hc => hlast c ?_
    rwa [List.getLast?_append_of_ne_nil _ fun h => hb (by rw [h, words_nil])] at hc
  have hwords : words ("// ".toList ++ a ++ " -> ".toList ++ b) =
      "//".toList :: (words a ++ "->".toList :: words b) := by
    have hsplit : "// ".toList ++ a ++ " -> ".toList ++ b =
        "//".toList ++ ' ' :: (a ++ ' ' :: ("->".toList ++ ' ' :: b)) := by
      simp only [String.reduceToList, List.append_assoc, List.cons_append, List.nil_append]
    have harrow : words "->".toList = ["->".toList] := by decide
    have hslashes : words "//".toList = ["//".toList] := by decide
    rw [hsplit, words_append_cons _ (by decide), words_append_cons _ (by decide),
      words_append_cons _ (by decide), hslashes, harrow]
    rfl
  -- A marker line has three words, and its second and third one are no arrow.
  have hnone : ∀ tag : List Char, ∀ x y, words tag = ["//".toList, x, y] → "->".toList ≠ x →
      "->".toList ≠ y →
        nameAfter (tag ++ [' ']) ("// ".toList ++ a ++ " -> ".toList ++ b) = none := by
    intro tag x y htag hx hy
    cases hname : nameAfter (tag ++ [' ']) ("// ".toList ++ a ++ " -> ".toList ++ b) with
    | none => rfl
    | some name =>
      have heq := words_of_nameAfter hname
      rw [hwords, htag] at heq
      exact absurd (List.cons.inj heq).2 (append_arrow_ne hx hy hb)
  have hbegin : beginTag = "// >>> doctype-ui:begin".toList ++ [' '] := by decide
  have hend : endTag = "// <<< doctype-ui:end".toList ++ [' '] := by decide
  rw [Mark.ofLine, hstrip, hbegin, hend,
    hnone "// >>> doctype-ui:begin".toList ">>>".toList "doctype-ui:begin".toList (by decide)
      (by decide) (by decide),
    hnone "// <<< doctype-ui:end".toList "<<<".toList "doctype-ui:end".toList (by decide)
      (by decide) (by decide)]

/-- A text without breaks and a line feed are one line. -/
theorem lines_lf {cs : List Char} (h : ∀ c ∈ cs, isLineBreak c = false) :
    Text.lines (cs ++ ['\n']) = [cs ++ ['\n']] := by
  induction cs with
  | nil => rfl
  | cons c cs ih =>
    rw [List.cons_append, lines_cons (h c List.mem_cons_self),
      ih fun d hd => h d (List.mem_cons_of_mem _ hd)]
    rfl

/-- **A comment with an arrow is plain** when its texts hold no breaks and the second is not blank.
A marker has one word behind its tag, and here two words at least stand behind whatever could be a
tag. -/
theorem isPlain_arrow {a b : List Char} (ha : ∀ c ∈ a, isLineBreak c = false)
    (hb : ∀ c ∈ b, isLineBreak c = false) (hwords : words b ≠ []) :
    IsPlain ("// ".toList ++ a ++ " -> ".toList ++ b ++ ['\n']) := by
  have hall : ∀ c ∈ "// ".toList ++ a ++ " -> ".toList ++ b, isLineBreak c = false := by
    intro c hc
    rw [List.mem_append, List.mem_append, List.mem_append] at hc
    have hslashes : ∀ c ∈ "// ".toList, isLineBreak c = false := unbroken_of_all (by decide)
    have harrow : ∀ c ∈ " -> ".toList, isLineBreak c = false := unbroken_of_all (by decide)
    rcases hc with ((hc | hc) | hc) | hc
    · exact hslashes c hc
    · exact ha c hc
    · exact harrow c hc
    · exact hb c hc
  refine ⟨?_, ?_⟩
  · -- The text is one line, and its last word is no part of a marker.
    rw [lines_lf hall]
    intro l hl
    rw [List.mem_singleton.1 hl, isMarkerLine_eq_false]
    refine ofLine_arrow hwords fun c hc => ?_
    rintro rfl
    exact absurd (hb _ (List.mem_of_getLast? hc)) (by decide)
  · intro c hc hbreak
    rcases List.mem_append.1 hc with hc | hc
    · rw [hall c hc] at hbreak
      exact absurd hbreak (by decide)
    · exact List.mem_singleton.1 hc

end FormScaffold.Region
