import FormScaffold.Proofs.View.Embedding

/-! # Names at the top level of generated code

A reader of generated code collects the names that are imported or declared at the top level, where
statements start lines. Data of the contract adds none: inside its literals no line starts with a
letter.

* **`topNames`** — the names that a text imports or declares at its top level;
* `topNames_of_fits` — a text of which no other line starts with a letter has those of its first
  line;
* `bodyNames_joinLines`, **`bodyNames_constant`** — the names of lines, and of constants whatever
  they hold;
* `annotate_eq_settle` — templates are settled in counted steps, so that their names can be
  computed. -/

namespace FormScaffold.View

open Region Text Json

/-! ## Names at the start of lines -/

/-- The characters of identifiers. -/
def isIdentifierPart (c : Char) : Bool := c.isAlphanum || c == '_' || c == '$'

/-- The identifiers of a text. -/
def identifiers (cs : List Char) : List String :=
  ((cs.splitOnP fun c => !isIdentifierPart c).filter (!·.isEmpty)).map String.ofList

/-- The words that stand before the name in a declaration. -/
def declarators : List String :=
  ["function ", "async function ", "class ", "const ", "let ", "var "]

/-- **The names that a line imports or declares**: those between `import` and `from`, or the one
behind the word for a declaration at the start of the line. -/
def lineNames (line : List Char) : List String :=
  match after? "import ".toList line with
  | some clause => (identifiers (clause.takeWhile (· != '\''))).dropLast
  | none =>
    let statement := (after? "export ".toList line).getD line
    match declarators.findSome? fun word => after? word.toList statement with
    | some rest => [String.ofList (rest.takeWhile isIdentifierPart)]
    | none => []

/-- **The names that a text imports or declares at its top level**, where statements start lines. -/
def topNames (cs : List Char) : List String := (lines cs).flatMap lineNames

/-- The words that are looked for start with letters. -/
theorem after?_eq_none {line : List Char} (h : ∀ c ∈ line.head?, c.isAlpha = false) :
    ∀ word ∈ "import " :: "export " :: declarators, after? word.toList line = none := by
  intro word hword
  have hletter : word.toList.head?.any Char.isAlpha = true := by
    revert word
    decide
  cases hw : word.toList with
  | nil =>
    rw [hw] at hletter
    exact absurd hletter (by decide)
  | cons w ws =>
    rw [hw, List.head?_cons, Option.any_some] at hletter
    rw [after?, if_neg]
    intro hprefix
    obtain ⟨rest, rfl⟩ := List.isPrefixOf_iff_prefix.1 hprefix
    rw [h w rfl] at hletter
    exact absurd hletter (by decide)

/-- A line that starts with no letter imports and declares nothing. -/
theorem lineNames_eq_nil {line : List Char} (h : ∀ c ∈ line.head?, c.isAlpha = false) :
    lineNames line = [] := by
  have hnone := after?_eq_none h
  rw [lineNames, hnone _ List.mem_cons_self, hnone _ (by decide)]
  have hwords : declarators.findSome? (fun word => after? word.toList line) = none :=
    List.findSome?_eq_none_iff.2 fun word hword =>
      hnone word (List.mem_cons_of_mem _ (List.mem_cons_of_mem _ hword))
  simp only [Option.getD_none, hwords]

/-- An import brings in what stands before its path. -/
theorem lineNames_import {clause : List Char} (h : '\'' ∉ clause) (rest : List Char) :
    lineNames ("import ".toList ++ clause ++ '\'' :: rest) = (identifiers clause).dropLast := by
  have htake : (clause ++ '\'' :: rest).takeWhile (· != '\'') = clause := by
    rw [List.takeWhile_append_of_pos fun c hc => ?_, List.takeWhile_cons_of_neg (by decide),
      List.append_nil]
    exact bne_iff_ne.2 fun heq => h (heq ▸ hc)
  rw [lineNames, List.append_assoc, after?_append]
  simp only [htake]

/-- A declaration that is exported declares the name behind the word for it. -/
theorem lineNames_export {word : String} (hword : word ∈ declarators) {name : String}
    (hname : ∀ c ∈ name.toList, isIdentifierPart c = true) {c : Char}
    (hc : isIdentifierPart c = false) (rest : List Char) :
    lineNames ("export ".toList ++ (word.toList ++ (name.toList ++ c :: rest))) = [name] := by
  have htake : (name.toList ++ c :: rest).takeWhile isIdentifierPart = name.toList := by
    rw [List.takeWhile_append_of_pos hname, List.takeWhile_cons_of_neg (by simp [hc]),
      List.append_nil]
  have himport : after? "import ".toList
      ("export ".toList ++ (word.toList ++ (name.toList ++ c :: rest))) = none := rfl
  have hfind : declarators.findSome?
      (fun w => after? w.toList (word.toList ++ (name.toList ++ c :: rest))) =
        some (name.toList ++ c :: rest) := by
    simp only [declarators, List.mem_cons, List.not_mem_nil, or_false] at hword
    rcases hword with rfl | rfl | rfl | rfl | rfl | rfl <;> rfl
  rw [lineNames, himport]
  simp only [after?_append, Option.getD_some, hfind, htake, String.ofList_toList]

/-! ## Names of texts -/

/-- Whole lines and what follows them. -/
theorem topNames_append {cs : List Char} (h : IsWhole cs) (ds : List Char) :
    topNames (cs ++ ds) = topNames cs ++ topNames ds := by
  rw [topNames, lines_append_of_isWhole h, List.flatMap_append, topNames, topNames]

/-- The names of a line. -/
theorem topNames_line {cs : List Char} (h : ∀ c ∈ cs, isLineBreak c = false) :
    topNames (cs ++ ['\n']) = lineNames (cs ++ ['\n']) := by
  rw [topNames, lines_lf h, List.flatMap_singleton]

/-- An empty line declares nothing. -/
theorem topNames_lf : topNames ['\n'] = [] := by decide

/-- The names of a text that stands on lines of its own. -/
def bodyNames (text : String) : List String := topNames (text.toList ++ ['\n'])

/-- What is spelled out is read character by character. -/
theorem bodyNames_ofList {cs : List Char} {names : List String}
    (h : topNames (cs ++ ['\n']) = names) : bodyNames (String.ofList cs) = names := by
  rw [bodyNames, String.toList_ofList, h]

/-- Lines declare what they declare one by one. -/
theorem bodyNames_joinLines (l : String) (ls : List String) :
    bodyNames (joinLines (l :: ls)) = (l :: ls).flatMap bodyNames := by
  rw [bodyNames, joinLines_lf]
  generalize l :: ls = ms
  induction ms with
  | nil => rfl
  | cons m ms ih =>
    rw [List.flatMap_cons, List.flatMap_cons, topNames_append (.inr List.getLast?_concat), ih]
    rfl

/-- The first line starts as the text does. -/
theorem exists_lines_eq_cons {cs : List Char} (h : cs ≠ []) :
    ∃ l ls, lines cs = l :: ls ∧ l.head? = cs.head? := by
  cases hlines : lines cs with
  | nil => exact absurd hlines (lines_ne_nil h)
  | cons l ls =>
    have hl : l ≠ [] := ne_nil_of_mem_lines (hlines ▸ List.mem_cons_self)
    have hhead : (l :: ls).flatten.head? = l.head? := head?_flatten hl
    refine ⟨l, ls, rfl, ?_⟩
    rw [← hhead, ← hlines, flatten_lines]

/-- No line but the first starts with a letter. -/
theorem tail_lines_of_fits {cs : List Char} (hfits : cs.IsChain Fits)
    (hbreaks : ∀ c ∈ cs, isLineBreak c = true → c = '\n') :
    ∀ l ∈ (lines (cs ++ ['\n'])).tail, ∀ c ∈ l.head?, c.isAlpha = false := by
  induction cs with
  | nil => exact fun l hl => absurd hl List.not_mem_nil
  | cons c cs ih =>
    have htail := ih hfits.tail fun d hd => hbreaks d (List.mem_cons_of_mem _ hd)
    obtain ⟨l, ls, hlines, hhead⟩ := exists_lines_eq_cons (List.append_ne_nil_of_right_ne_nil cs
      (List.cons_ne_nil '\n' []))
    rw [hlines, List.tail_cons] at htail
    rw [List.cons_append]
    cases hbreak : isLineBreak c with
    | false =>
      rw [lines_cons hbreak, hlines]
      exact htail
    | true =>
      -- The next line starts with what follows the line feed.
      obtain rfl := hbreaks c List.mem_cons_self hbreak
      rw [lines_break hbreak (not_fuses_of_lf rfl _), hlines, List.tail_cons, List.forall_mem_cons]
      refine ⟨fun d hd => ?_, htail⟩
      rw [hhead] at hd
      cases cs with
      | nil =>
        obtain rfl : '\n' = d := Option.some.inj hd
        decide
      | cons e cs =>
        obtain rfl : e = d := Option.some.inj hd
        exact (List.isChain_cons_cons.1 hfits).1.2 rfl

/-- **All names of the text are in its first line**, if that is broken by line feeds alone and no
other line starts with a letter. A line that starts with a blank or a mark declares nothing at the
top level. -/
theorem topNames_of_fits {as cs : List Char} (hunbroken : ∀ c ∈ as, isLineBreak c = false)
    (hfits : (as ++ cs).IsChain Fits) (hbreaks : ∀ c ∈ cs, isLineBreak c = true → c = '\n') :
    ∃ rest, topNames (as ++ cs ++ ['\n']) = lineNames (as ++ rest) := by
  have hall : ∀ c ∈ as ++ cs, isLineBreak c = true → c = '\n' := by
    refine List.forall_mem_append.2 ⟨fun c hc hbreak => ?_, hbreaks⟩
    rw [hunbroken c hc] at hbreak
    exact absurd hbreak (by decide)
  have htail := tail_lines_of_fits hfits hall
  -- The first line starts with the unbroken text.
  have hfirst : ∃ rest ls, lines (as ++ cs ++ ['\n']) = (as ++ rest) :: ls := by
    rw [List.append_assoc]
    obtain ⟨l, ls, hlines, -⟩ := exists_lines_eq_cons (List.append_ne_nil_of_right_ne_nil cs
      (List.cons_ne_nil '\n' []))
    clear hfits hall htail
    induction as with
    | nil => exact ⟨l, ls, hlines⟩
    | cons c as ih =>
      obtain ⟨hc, has⟩ := List.forall_mem_cons.1 hunbroken
      obtain ⟨rest, ls, hrest⟩ := ih has
      exact ⟨rest, ls, by rw [List.cons_append, lines_cons hc, hrest]; rfl⟩
  obtain ⟨rest, ls, hlines⟩ := hfirst
  rw [hlines, List.tail_cons] at htail
  refine ⟨rest, ?_⟩
  rw [topNames, hlines, List.flatMap_cons, List.flatMap_eq_nil_iff.2 fun l hl =>
    lineNames_eq_nil (htail l hl), List.append_nil]

/-- A line that starts with no letter has no names. -/
theorem bodyNames_of_head {text : String} {c : Char} (hhead : text.toList.head? = some c)
    (hc : c.isAlpha = false) (hunbroken : ∀ c ∈ text.toList, isLineBreak c = false) :
    bodyNames text = [] := by
  rw [bodyNames, topNames_line hunbroken, lineNames_eq_nil]
  intro d hd
  rw [List.head?_append, hhead] at hd
  exact Option.some.inj hd ▸ hc

/-- A body consists of whole lines. -/
theorem isWhole_body (name text : String) : IsWhole (body name text).text := by
  rw [body, Block.text, between_eq]
  exact isWhole_append (isWhole_beginLine name)
    (isWhole_append (isWhole_closed _) (isWhole_endLine name))

/-- A body has the names of its text: its markers are comments. -/
theorem topNames_body {name : String} (hname : IsTagName name) (text : String) :
    topNames (body name text).text = bodyNames text := by
  -- A marker line starts with no letter, and so declares nothing.
  have hmarker : ∀ tag : List Char, (∀ c ∈ tag, isLineBreak c = false) →
      (∀ c ∈ tag.head?, c.isAlpha = false) → tag ≠ [] →
      topNames (tag ++ name.toList ++ ['\n']) = [] := by
    intro tag htag hhead hne
    have hunbroken : ∀ c ∈ tag ++ name.toList, isLineBreak c = false :=
      List.forall_mem_append.2 ⟨htag, fun c hc => isLineBreak_of_not_isBlank (hname.2 c hc)⟩
    rw [topNames_line hunbroken, lineNames_eq_nil]
    rwa [List.append_assoc, List.head?_append_of_ne_nil _ hne]
  have hbegin : topNames (beginLine name) = [] :=
    hmarker beginTag unbroken_beginTag (by decide) (by decide)
  have hend : topNames (endLine name) = [] :=
    hmarker endTag unbroken_endTag (by decide) (by decide)
  have hclosed : topNames (closed text.toList) = bodyNames text := by
    unfold closed
    split
    · rename_i hwhole
      have hwhole : IsWhole text.toList := by simpa [IsWhole] using hwhole
      rw [bodyNames, topNames_append hwhole, topNames_lf, List.append_nil]
    · rfl
  rw [body, Block.text, between_eq, topNames_append (isWhole_beginLine name),
    topNames_append (isWhole_closed _), hbegin, hend, List.nil_append, List.append_nil, hclosed]

/-! ## Names of constants -/

/-- The declaration of a constant brings in its name, whatever its literal holds. -/
theorem topNames_literal {head : List Char} {name : String}
    (hunbroken : ∀ c ∈ head, isLineBreak c = false) (hsealed : IsSealed head)
    (hhead : ∀ rest, lineNames (head ++ rest) = [name]) {style : Style}
    (hstyle : style.escaping = .lineSafe) (v : Value) :
    topNames (head ++ (write style 0 v ++ [';']) ++ ['\n']) = [name] := by
  have hfits : (head ++ (write style 0 v ++ [';'])).IsChain Fits :=
    hsealed.fits_append ((isSealed_write style 0 v).fits_append (List.isChain_singleton _))
  have hbreaks : ∀ c ∈ write style 0 v ++ [';'], isLineBreak c = true → c = '\n' := by
    obtain ⟨_, -, hleads⟩ := isCalm_write hstyle 0 v .start (by decide)
    exact List.forall_mem_append.2 ⟨breaks_of_leads hleads, by decide⟩
  obtain ⟨rest, hrest⟩ := topNames_of_fits hunbroken hfits hbreaks
  rw [hrest, hhead]

/-- The head of a declaration declares its name. -/
theorem lineNames_declarationHead {name : String} (hname : IsConstantName name)
    (rest : List Char) : lineNames (declarationHead name ++ rest) = [name] := by
  have hexport : "export const ".toList = "export ".toList ++ "const ".toList := by decide
  have hpart : ∀ c ∈ name.toList, isIdentifierPart c = true := by
    intro c hc
    rcases hname c hc with hc | rfl
    · simp [isIdentifierPart, isAlphanum_of_isUpper hc]
    · decide
  have hword : "const " ∈ declarators := by decide
  have hnames := lineNames_export hword hpart (c := ' ') (by decide) ("= ".toList ++ rest)
  have htext : declarationHead name ++ rest =
      "export ".toList ++ ("const ".toList ++ (name.toList ++ ' ' :: ("= ".toList ++ rest))) := by
    rw [declarationHead_eq, String.toList_append, hexport]
    simp only [List.append_assoc]
    rfl
  rw [htext, hnames]

/-- **A constant brings in its name**, whatever it holds. The lines of its literal are indented or
start with a closing mark. -/
theorem bodyNames_constant {name : String} (hname : IsConstantName name) {style : Style}
    (hstyle : style.escaping = .lineSafe) (v : Value) {literal : String}
    (hliteral : literal.toList = write style 0 v) :
    bodyNames (constant name literal) = [name] := by
  have hunbroken : ∀ c ∈ declarationHead name, isLineBreak c = false := by
    rw [declarationHead_eq, String.toList_append]
    simp only [List.forall_mem_append]
    refine ⟨⟨by decide, fun c hc => ?_⟩, by decide⟩
    rcases hname c hc with hc | rfl
    · exact isLineBreak_of_isAlphanum (isAlphanum_of_isUpper hc)
    · decide
  have hnames := topNames_literal hunbroken (isSealed_declarationHead hname)
    (lineNames_declarationHead hname) hstyle v
  rwa [bodyNames, toList_constant, hliteral, List.append_assoc (declarationHead name)]

/-- The literal of a text stays on one line. -/
theorem unbroken_textLiteral (s : String) :
    ∀ c ∈ (textLiteral s).toList, isLineBreak c = false := by
  intro c hc
  rw [textLiteral, Json.literal, Json.inline, String.toList_ofList, write, Json.textLiteral,
    List.cons_append, List.mem_cons, List.mem_append, List.mem_singleton, List.mem_flatMap] at hc
  rcases hc with rfl | ⟨d, -, hc⟩ | rfl
  · decide
  · exact isLineBreak_of_mem_escapeChar hc
  · decide

/-! ## Settled templates -/

/-- The template text in a language, settled in counted steps. -/
def settle (language : Language) : Nat → List Char → List Char
  | steps + 1, '#' :: '\x7b' :: rest =>
    match untilClose rest with
    | some (inside, left) =>
      (match language with
        | .ts => inside
        | .js => []) ++ settle language steps left
    | none => '#' :: settle language steps ('\x7b' :: rest)
  | steps + 1, c :: rest => c :: settle language steps rest
  | _, cs => cs

/-- **A step for each character settles all annotations**, so that templates can be computed. The
settling itself goes by the length of what is left, which a proof cannot compute with. -/
theorem annotate_eq_settle (language : Language) {cs : List Char} {steps : Nat}
    (h : cs.length ≤ steps) : annotate language cs = settle language steps cs := by
  induction cs using annotate.induct generalizing steps with
  | case1 =>
    rw [annotate]
    cases steps <;> rfl
  | case2 rest inside left hclose ih =>
    have hleft := length_of_untilClose hclose
    rw [List.length_cons, List.length_cons] at h
    obtain ⟨steps, rfl⟩ := Nat.exists_eq_add_of_le' (Nat.le_of_add_left_le h : 1 ≤ steps)
    -- What is left behind the annotation is shorter, so that the steps suffice for it.
    rw [annotate_of_close language hclose, settle, ih (by omega : left.length ≤ steps)]
    cases language <;> simp [hclose]
  | case3 rest hclose ih =>
    rw [List.length_cons] at h
    obtain ⟨steps, rfl⟩ := Nat.exists_eq_add_of_le' (Nat.le_of_add_left_le h : 1 ≤ steps)
    rw [annotate_of_open language hclose, settle, ih (Nat.le_of_succ_le_succ h)]
    simp only [hclose]
  | case4 c rest hopen ih =>
    rw [List.length_cons] at h
    obtain ⟨steps, rfl⟩ := Nat.exists_eq_add_of_le' (Nat.le_of_add_left_le h : 1 ≤ steps)
    rw [annotate.eq_3 language c rest hopen, settle.eq_2 language steps c rest hopen,
      ih (Nat.le_of_succ_le_succ h)]

/-- The names of a template are those of its settled text. -/
theorem bodyNames_typed {language : Language} {cs : List Char} {names : List String}
    (h : topNames (settle language cs.length cs ++ ['\n']) = names) :
    bodyNames (typed language (String.ofList cs)) = names := by
  refine bodyNames_ofList ?_
  rwa [String.toList_ofList, annotate_eq_settle language (Nat.le_refl _)]

end FormScaffold.View
