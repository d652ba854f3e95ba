/-!
# Lines and pieces

A line runs up to and including the break that ends it; a carriage return and a line feed after it
are one break. Main statement: the lines of a text, put together again, are the text.
Occurrences of a piece of text are found from left to right and do not overlap.
-/

namespace FormScaffold.Text

/-! ## Lines -/

/-- The characters that end a line. -/
def isLineBreak (c : Char) : Bool :=
  (0xA ≤ c.toNat && c.toNat ≤ 0xD) || (0x1C ≤ c.toNat && c.toNat ≤ 0x1E) || c.toNat == 0x85 ||
    c.toNat == 0x2028 || c.toNat == 0x2029

/-- One more character at the start of the first line. -/
def consLine (c : Char) : List (List Char) → List (List Char)
  | [] => [[c]]
  | line :: rest => (c :: line) :: rest

/-- A character in front of lines is in front of their text. -/
@[simp] theorem flatten_consLine (c : Char) (ls : List (List Char)) :
    (consLine c ls).flatten = c :: ls.flatten := by
  cases ls <;> simp [consLine]

/-- The lines of a text, each with its break. -/
def lines : List Char → List (List Char)
  | [] => []
  | '\r' :: '\n' :: rest => ['\r', '\n'] :: lines rest
  | c :: rest => if isLineBreak c then [c] :: lines rest else consLine c (lines rest)

/-- The empty text has no lines. -/
@[simp] theorem lines_nil : lines [] = [] := rfl

/-- No character is lost or added. -/
@[simp] theorem flatten_lines (cs : List Char) : (lines cs).flatten = cs := by
  fun_induction lines cs with
  | case1 => rfl
  | case2 rest ih => simp [ih]
  | case3 c rest _ _ ih => simp [ih]
  | case4 c rest _ _ ih => simp [ih]

/-- No line is empty. -/
theorem ne_nil_of_mem_lines {cs line : List Char} (h : line ∈ lines cs) : line ≠ [] := by
  fun_induction lines cs with
  | case1 => simp at h
  | case2 rest ih => grind
  | case3 c rest _ _ ih => grind
  | case4 c rest _ _ ih =>
    cases hl : lines rest with
    | nil => grind [consLine]
    | cons l ls => grind [consLine]

/-- The line without the break `\r\n`, `\n` or `\r` at its end; other breaks stay. -/
def stripBreak (line : List Char) : List Char :=
  match line.reverse with
  | '\n' :: '\r' :: rest => rest.reverse
  | '\n' :: rest => rest.reverse
  | '\r' :: rest => rest.reverse
  | _ => line

/-- Every line feed becomes a carriage return and a line feed. -/
def toCarriage (cs : List Char) : List Char :=
  cs.flatMap fun c => if c == '\n' then ['\r', '\n'] else [c]

/-- Every carriage return before a line feed is dropped. -/
def dropCarriage : List Char → List Char
  | [] => []
  | '\r' :: '\n' :: rest => '\n' :: dropCarriage rest
  | c :: rest => c :: dropCarriage rest

/-- Whether a carriage return stands before a line feed somewhere in the text. -/
def hasCarriage : List Char → Bool
  | [] => false
  | '\r' :: '\n' :: _ => true
  | _ :: rest => hasCarriage rest

/-! ## Pieces -/

section Pieces

variable {α : Type} [DecidableEq α]

/-- Replaces each occurrence of `old`; the first `skip` elements belong to an occurrence that was
replaced already. -/
def replaceFrom (old new : List α) (skip : Nat) : List α → List α
  | [] => []
  | c :: cs =>
    match skip with
    | k + 1 => replaceFrom old new k cs
    | 0 =>
      if old.isPrefixOf (c :: cs) then new ++ replaceFrom old new (old.length - 1) cs
      else c :: replaceFrom old new 0 cs

/-- The list with every occurrence of the non-empty piece `old` replaced by `new`. -/
def replaceAll (old new cs : List α) : List α := replaceFrom old new 0 cs

/-- Nothing can be replaced in nothing. -/
@[simp] theorem replaceAll_nil (old new : List α) : replaceAll old new [] = [] := rfl

/-- Whether the piece occurs somewhere in the list. -/
def occursIn (piece : List α) : List α → Bool
  | [] => piece.isEmpty
  | c :: cs => piece.isPrefixOf (c :: cs) || occursIn piece cs

example :
    replaceAll ['*', '/'] ['*', ' ', '/'] ['*', '*', '/', '/'] = ['*', '*', ' ', '/', '/'] := by
  decide

end Pieces

end FormScaffold.Text
