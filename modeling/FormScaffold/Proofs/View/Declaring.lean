import FormScaffold.Contract.Script
import FormScaffold.Json.Reader
import FormScaffold.Proofs.Json.RoundTrip
import FormScaffold.Proofs.View.Template

/-! # Constants of generated code

A reader of generated code looks for the line that declares a constant and reads its literal as
JSON. What is written into the code by `constant` is found by it.

* **`declared?`** — the value that a text declares for a constant;
* `Passes` — lines in which a constant is not declared;
* **`declared?_joinLines`** — after such lines a declaration is read as its literal. -/

namespace FormScaffold.View

open Text Json

/-! ## The reader -/

/-- The head of a declaration without a type. -/
def declarationHead (name : String) : List Char := ("export const " ++ name ++ " = ").toList

/-- What follows the sign for a value, on the same line. -/
def afterSign? : List Char → Option (List Char)
  | [] => none
  | ' ' :: '=' :: ' ' :: rest => some rest
  | c :: rest => if c == '\n' then none else afterSign? rest

/-- What follows the head of a declaration at the start of the text; a type may stand after the
name. -/
def declaration? (name : String) (cs : List Char) : Option (List Char) := do
  match ← after? ("export const " ++ name).toList cs with
  | ':' :: type => afterSign? type
  | rest => after? " = ".toList rest

/-- What follows the head of the first declaration at the start of a line; `atStart` says that the
text begins a line. -/
def findDeclaration? (name : String) (atStart : Bool) : List Char → Option (List Char)
  | [] => none
  | c :: rest =>
    match if atStart then declaration? name (c :: rest) else none with
    | some found => some found
    | none => findDeclaration? name (c == '\n') rest

/-- The text up to the first semicolon that ends a line. -/
def untilSemicolon? : List Char → Option (List Char)
  | [] => none
  | ';' :: '\n' :: _ => some []
  | c :: rest => (untilSemicolon? rest).map (c :: ·)

/-- The value that the text declares for the constant, when its literal is JSON. -/
def declared? (name : String) (cs : List Char) : Option Value := do
  read? (← untilSemicolon? (← findDeclaration? name true cs))

/-! ## What it finds -/

/-- What follows a piece that a text starts with. -/
theorem after?_append (piece rest : List Char) : after? piece (piece ++ rest) = some rest := by
  rw [after?, if_pos (List.isPrefixOf_iff_prefix.2 (List.prefix_append _ _)), List.drop_left]

/-- **A literal ends at its semicolon.** Inside of the literal no semicolon ends a line, so that the
first one that does is that of the declaration. -/
theorem untilSemicolon?_append {cs : List Char} (h : IsSealed cs) (rest : List Char) :
    untilSemicolon? (cs ++ ';' :: '\n' :: rest) = some cs := by
  obtain ⟨hfits, hlast⟩ := h
  induction cs with
  | nil => rfl
  | cons c cs ih =>
    have hrest : untilSemicolon? (cs ++ ';' :: '\n' :: rest) = some cs := by
      cases cs with
      | nil => rfl
      | cons d cs => exact ih hfits.tail (by simpa [List.getLast?_cons] using hlast)
    rw [List.cons_append, untilSemicolon?.eq_3, hrest, Option.map_some]
    rintro left rfl hleft
    -- A semicolon inside the literal is followed by the rest of its line.
    cases cs with
    | nil => exact (hlast ';' rfl).1 rfl
    | cons d cs =>
      obtain ⟨rfl, -⟩ := List.cons.inj hleft
      exact (List.isChain_cons_cons.1 hfits).1.1 rfl rfl

/-- **The lines of a text in which the constant is not declared.** -/
def Passes (name : String) (cs : List Char) : Prop :=
  ∀ rest, findDeclaration? name true (cs ++ '\n' :: rest) = findDeclaration? name true rest

/-- A declaration starts with the first letter of its keyword. -/
theorem exists_export (name : String) :
    ∃ tail, ("export const " ++ name).toList = 'e' :: tail := by
  have hexport : "export const " = String.ofList ('e' :: "xport const ".toList) := by decide
  rw [String.toList_append, hexport, String.toList_ofList, List.cons_append]
  exact ⟨_, rfl⟩

/-- What starts with another letter declares nothing. -/
theorem declaration?_eq_none (name : String) {c : Char} (h : c ≠ 'e') (cs : List Char) :
    declaration? name (c :: cs) = none := by
  obtain ⟨tail, htail⟩ := exists_export name
  rw [declaration?, htail, after?, if_neg]
  · rfl
  · intro hprefix
    exact h (List.cons_prefix_cons.1 (List.isPrefixOf_iff_prefix.1 hprefix)).1.symm

/-- No line that starts inside the text declares anything. -/
theorem findDeclaration?_of_fits (name : String) {c : Char} {cs : List Char}
    (h : (c :: cs).IsChain Fits) (rest : List Char) :
    findDeclaration? name (c == '\n') (cs ++ '\n' :: rest) = findDeclaration? name true rest := by
  induction cs generalizing c with
  | nil =>
    rw [List.nil_append, findDeclaration?, declaration?_eq_none name (by decide)]
    cases c == '\n' <;> rfl
  | cons d cs ih =>
    obtain ⟨hfits, htail⟩ := List.isChain_cons_cons.1 h
    have hnone : (if (c == '\n') = true then declaration? name (d :: (cs ++ '\n' :: rest))
        else none) = none := by
      split
      · rename_i hc
        have hletter := hfits.2 (beq_iff_eq.1 hc)
        refine declaration?_eq_none name ?_ _
        rintro rfl
        exact absurd hletter (by decide)
      · rfl
    rw [List.cons_append, findDeclaration?, hnone]
    exact ih htail

/-- An empty line declares nothing. -/
theorem passes_nil (name : String) : Passes name [] := by
  intro rest
  rw [List.nil_append, findDeclaration?, declaration?_eq_none name (by decide)]
  rfl

/-- Lines are passed over when none of them declares the constant. -/
theorem passes_cons {name : String} {c : Char} {cs : List Char} (hfits : (c :: cs).IsChain Fits)
    (h : ∀ rest, declaration? name (c :: (cs ++ '\n' :: rest)) = none) :
    Passes name (c :: cs) := by
  intro rest
  rw [List.cons_append, findDeclaration?, if_pos rfl, h]
  exact findDeclaration?_of_fits name hfits rest

/-- A sealed text that starts with another letter is passed over. -/
theorem passes_of_head (name : String) {c : Char} {cs : List Char}
    (hfits : (c :: cs).IsChain Fits) (hc : c ≠ 'e') : Passes name (c :: cs) :=
  passes_cons hfits fun _ => declaration?_eq_none name hc _

/-! ## Declarations -/

/-- A constant is written as its head, its literal and a semicolon. -/
theorem toList_constant (name literal : String) :
    (constant name literal).toList = declarationHead name ++ literal.toList ++ [';'] := by
  -- Unfolding by `rw` would have Lean compare the words of the text.
  change ("export const " ++ name ++ " = " ++ literal ++ ";").toList = _
  rw [String.toList_append, String.toList_append]
  rfl

/-- The head of a declaration is its keyword with the name, and the sign for a value. -/
theorem declarationHead_eq (name : String) :
    declarationHead name = ("export const " ++ name).toList ++ " = ".toList := String.toList_append

/-- Behind its head a declaration is found. -/
theorem declaration?_declarationHead (name : String) (rest : List Char) :
    declaration? name (declarationHead name ++ rest) = some rest := by
  rw [declaration?, declarationHead_eq, List.append_assoc, after?_append]
  exact after?_append " = ".toList rest

/-- The names of constants are written in capitals. -/
def IsConstantName (name : String) : Prop := ∀ c ∈ name.toList, c.isUpper = true ∨ c = '_'

instance (name : String) : Decidable (IsConstantName name) :=
  inferInstanceAs (Decidable (∀ c ∈ name.toList, c.isUpper = true ∨ c = '_'))

/-- The name of a constant has neither a blank nor a colon nor a line feed, by which it would end.
-/
theorem IsConstantName.ne {name : String} (h : IsConstantName name) {c : Char}
    (hc : c ∈ name.toList) : c ≠ ' ' ∧ c ≠ ':' ∧ c ≠ '\n' := by
  rcases h c hc with hc | rfl
  · refine ⟨?_, ?_, ?_⟩ <;> rintro rfl <;> exact absurd hc (by decide)
  · decide

/-- The head of a declaration is one line that goes on. -/
theorem isSealed_declarationHead {name : String} (h : IsConstantName name) :
    IsSealed (declarationHead name) := by
  have hname : IsSealed (name.toList ++ " = ".toList) := by
    refine isSealed_of_forall (fun c hc => ?_) (by simp)
    rcases List.mem_append.1 hc with hc | hc
    · exact (h.ne hc).2.2
    · exact (show ∀ c ∈ " = ".toList, c ≠ '\n' by decide) c hc
  have hexport : IsSealed "export const ".toList := by decide
  rw [declarationHead_eq, String.toList_append, List.append_assoc]
  exact hexport.append hname

/-- Behind the name of another constant the declaration of this one does not go on. -/
theorem declaration?_other {name other : String} (hname : IsConstantName name)
    (hother : IsConstantName other) (hne : name ≠ other) (rest : List Char) :
    declaration? name (declarationHead other ++ rest) = none := by
  have hsplit : declarationHead other ++ rest =
      "export const ".toList ++ (other.toList ++ (" = ".toList ++ rest)) := by
    rw [declarationHead_eq, String.toList_append]
    simp only [List.append_assoc]
  rw [declaration?, hsplit, String.toList_append, after?]
  split
  · rename_i hprefix
    rw [List.isPrefixOf_iff_prefix, List.prefix_append_right_inj] at hprefix
    obtain ⟨left, hleft⟩ := hprefix
    rw [← hleft, ← List.append_assoc, List.drop_left]
    -- One of the names is longer, and its next character would be a blank or a colon.
    rcases List.append_eq_append_iff.1 hleft with ⟨more, hmore, rfl⟩ | ⟨more, hmore, hrest⟩
    · cases more with
      | nil => exact absurd (String.toList_inj.1 (by simpa using hmore)) hne.symm
      | cons c more =>
        have hc := hother.ne (hmore ▸ List.mem_append_right _ List.mem_cons_self)
        have hnone : after? " = ".toList (c :: (more ++ (" = ".toList ++ rest))) = none := by
          simp [after?, hc.1.symm]
        simpa [hc.2.1] using hnone
    · cases more with
      | nil => exact absurd (String.toList_inj.1 (by simpa using hmore)) hne
      | cons c more =>
        have hc := hname.ne (hmore ▸ List.mem_append_right _ List.mem_cons_self)
        exact absurd (List.cons.inj hrest).1.symm hc.1
  · rfl

/-- The declaration of another constant is passed over. -/
theorem passes_constant {name other : String} (hname : IsConstantName name)
    (hotherName : IsConstantName other) (hne : name ≠ other)
    {literal : String} (hliteral : IsSealed literal.toList) :
    Passes name (constant other literal).toList := by
  have hother := declaration?_other hname hotherName hne
  have hfits : (declarationHead other ++ literal.toList ++ [';']).IsChain Fits :=
    ((isSealed_declarationHead hotherName).append hliteral).fits_append (List.isChain_singleton _)
  obtain ⟨tail, htail⟩ := exists_export other
  have hhead : declarationHead other = 'e' :: (tail ++ " = ".toList) := by
    rw [declarationHead_eq, htail, List.cons_append]
  rw [toList_constant]
  rw [hhead] at hfits hother ⊢
  rw [List.append_assoc, List.cons_append] at hfits ⊢
  refine passes_cons hfits fun rest => ?_
  rw [List.append_assoc]
  exact hother _

section Lines

variable {name : String} {front : List (List Char)} (hfront : ∀ l ∈ front, Passes name l)
include hfront

/-- **Lines in which a constant is not declared are passed over**, one after the other. -/
theorem findDeclaration?_lines (rest : List Char) :
    findDeclaration? name true (front.flatMap (· ++ ['\n']) ++ rest) =
      findDeclaration? name true rest := by
  induction front with
  | nil => rfl
  | cons l ls ih =>
    obtain ⟨hl, hls⟩ := List.forall_mem_cons.1 hfront
    rw [List.flatMap_cons, List.append_assoc, List.append_assoc, List.singleton_append, hl, ih hls]

/-- **After lines that do not declare the constant, its declaration is read as its literal.** The
declaration may have a type, which is passed over. -/
theorem declared?_lines {cs literal : List Char} (hliteral : IsSealed literal) {rest : List Char}
    (h : declaration? name cs = some (literal ++ ';' :: '\n' :: rest)) :
    declared? name (front.flatMap (· ++ ['\n']) ++ cs) = read? literal := by
  have hfind : findDeclaration? name true cs = some (literal ++ ';' :: '\n' :: rest) := by
    cases cs with
    | nil => exact absurd h (by simp [declaration?, after?])
    | cons c cs => rw [findDeclaration?, if_pos rfl, h]
  rw [declared?, findDeclaration?_lines hfront, hfind]
  simp [untilSemicolon?_append hliteral]

end Lines

/-! ## Bodies of lines -/

/-- One line joined is this line. -/
@[simp] theorem joinLines_singleton (l : String) : joinLines [l] = l := String.intercalate_singleton

/-- Lines in front of a line end in line feeds. -/
theorem joinLines_append (front : List String) (l : String) (back : List String) :
    (joinLines (front ++ l :: back)).toList =
      (front.map String.toList).flatMap (· ++ ['\n']) ++ (joinLines (l :: back)).toList := by
  induction front with
  | nil => rfl
  | cons m front ih =>
    have hcons : (joinLines (m :: (front ++ l :: back))).toList =
        m.toList ++ '\n' :: (joinLines (front ++ l :: back)).toList := by
      cases front <;> simp [joinLines, String.toList_intercalate]
    rw [List.cons_append, hcons, ih]
    simp

/-- A text is closed at its end, whatever stands in front. -/
theorem closed_append {as bs : List Char} (hne : bs ≠ []) :
    Region.closed (as ++ bs) = as ++ Region.closed bs := by
  unfold Region.closed
  rw [List.getLast?_append_of_ne_nil _ hne]
  simp only [List.isEmpty_iff, List.append_eq_nil_iff, hne, and_false, Bool.or_eq_true, false_or]
  split
  · rfl
  · rw [List.append_assoc]

/-- A line of a closed body ends in a line feed. -/
theorem exists_closed_joinLines {l : String} (hne : l.toList ≠ [])
    (hlast : l.toList.getLast? ≠ some '\n') (back : List String) :
    ∃ rest, Region.closed (joinLines (l :: back)).toList = l.toList ++ '\n' :: rest := by
  cases back with
  | nil =>
    refine ⟨[], ?_⟩
    rw [joinLines_singleton, Region.closed, if_neg (by simpa [hne] using hlast)]
  | cons m back =>
    have hcons : (joinLines (l :: m :: back)).toList =
        l.toList ++ '\n' :: (joinLines (m :: back)).toList := by
      simp [joinLines, String.toList_intercalate]
    rw [hcons, closed_append (List.cons_ne_nil _ _), Region.closed]
    split
    · exact ⟨_, rfl⟩
    · exact ⟨_, by rw [List.cons_append]⟩

/-- **A constant that is declared in a line of a body**, after lines that do not declare it, **is
read as its literal.** -/
theorem declared?_joinLines {name : String} {front : List String}
    (hfront : ∀ l ∈ front, Passes name l.toList) {literal : String}
    (hliteral : IsSealed literal.toList) (back : List String) :
    declared? name (Region.closed (joinLines (front ++ constant name literal :: back)).toList) =
      read? literal.toList := by
  have hne : (constant name literal).toList ≠ [] := by simp [toList_constant]
  have hlast : (constant name literal).toList.getLast? ≠ some '\n' := by
    simp [toList_constant]
  obtain ⟨rest, hrest⟩ := exists_closed_joinLines hne hlast back
  have hjoined : (joinLines (constant name literal :: back)).toList ≠ [] := by
    intro hnil
    rw [hnil] at hrest
    exact absurd hrest (by simp [Region.closed])
  rw [joinLines_append, closed_append hjoined, hrest]
  have hpasses : ∀ l ∈ front.map String.toList, Passes name l := List.forall_mem_map.2 hfront
  have hfind : declaration? name ((constant name literal).toList ++ '\n' :: rest) =
      some (literal.toList ++ ';' :: '\n' :: rest) := by
    rw [toList_constant, List.append_assoc, List.append_assoc, declaration?_declarationHead]
    rfl
  exact declared?_lines hpasses hliteral hfind

/-! ## Bodies with several constants -/

/-- The text is a literal of the value. -/
def IsLiteralOf (v : Value) (literal : String) : Prop := ∃ style, literal.toList = write style 0 v

/-- A value on one line is a literal of it. -/
theorem isLiteralOf_literal (v : Value) : IsLiteralOf v (Json.literal v) :=
  ⟨⟨.lineSafe, false⟩, String.toList_ofList⟩

/-- A value on several lines is a literal of it. -/
theorem isLiteralOf_block (v : Value) : IsLiteralOf v (Json.block v) :=
  ⟨⟨.lineSafe, true⟩, String.toList_ofList⟩

/-- A literal does not end a declaration before its end. -/
theorem IsLiteralOf.isSealed {v : Value} {literal : String} (h : IsLiteralOf v literal) :
    IsSealed literal.toList := by
  obtain ⟨style, hliteral⟩ := h
  rw [hliteral]
  exact isSealed_write style 0 v

/-- **Lines that declare constants**, each under a name of its own, among lines in which nothing is
declared. -/
inductive Declares : List String → List (String × Value) → Prop where
  | nil : Declares [] []
  | other {l : String} {ls : List String} {ds : List (String × Value)}
      (h : ∀ name, Passes name l.toList) (hls : Declares ls ds) : Declares (l :: ls) ds
  | constant {name literal : String} {v : Value} {ls : List String} {ds : List (String × Value)}
      (hname : IsConstantName name) (hliteral : IsLiteralOf v literal)
      (hnew : name ∉ ds.map (·.1)) (hls : Declares ls ds) :
      Declares (constant name literal :: ls) ((name, v) :: ds)

namespace Declares

variable {ls : List String} {ds : List (String × Value)} (h : Declares ls ds) {name : String}
  {v : Value} (hmem : (name, v) ∈ ds)
include h hmem

/-- Declared constants have names that declarations may have. -/
theorem isConstantName : IsConstantName name := by
  induction h with
  | nil => exact absurd hmem List.not_mem_nil
  | other _ _ ih => exact ih hmem
  | constant hname _ _ _ ih =>
    rcases List.mem_cons.1 hmem with heq | hmem
    · rwa [(Prod.mk.inj heq).1]
    · exact ih hmem

/-- The line of a constant stands behind lines that do not declare it. -/
theorem exists_eq_append : ∃ front literal back, ls = front ++ View.constant name literal :: back ∧
    IsLiteralOf v literal ∧ ∀ l ∈ front, Passes name l.toList := by
  induction h with
  | nil => exact absurd hmem List.not_mem_nil
  | @other l ls ds hl _ ih =>
    obtain ⟨front, literal, back, rfl, hliteral, hfront⟩ := ih hmem
    exact ⟨l :: front, literal, back, rfl, hliteral, List.forall_mem_cons.2 ⟨hl name, hfront⟩⟩
  | @constant other literal w ls ds hother hliteral hnew hls ih =>
    rcases List.mem_cons.1 hmem with heq | hds
    · obtain ⟨rfl, rfl⟩ := Prod.mk.inj heq
      exact ⟨[], literal, ls, rfl, hliteral, by simp⟩
    · obtain ⟨front, literal', back, rfl, hliteral', hfront⟩ := ih hds
      have hname : name ∈ ds.map (·.1) := List.mem_map_of_mem hds
      have hne : name ≠ other := fun heq => hnew (heq ▸ hname)
      exact ⟨View.constant other literal :: front, literal', back, rfl, hliteral',
        List.forall_mem_cons.2
          ⟨passes_constant (hls.isConstantName hds) hother hne hliteral.isSealed, hfront⟩⟩

/-- **Every constant that is declared in a body is read as its data.** -/
theorem declared? (hreals : ∀ x ∈ reals v, ReadsBack x) (hv : IsWellFormed v)
    (back : List String) :
    View.declared? name (Region.closed (joinLines (ls ++ back)).toList) = some v := by
  obtain ⟨front, literal, rest, rfl, hliteral, hfront⟩ := h.exists_eq_append hmem
  obtain ⟨style, hwritten⟩ := id hliteral
  rw [List.append_assoc, List.cons_append, declared?_joinLines hfront hliteral.isSealed, hwritten]
  exact read?_write_of_isWellFormed hreals style hv 0

end Declares

end FormScaffold.View
