import FormScaffold.Proofs.Json.RoundTrip
import FormScaffold.Proofs.View.Template

/-! # Roles in generated code

The declarations of permissions go through two passes: annotations are settled in them, and in the
typed language the type of the constant is written into their head. Both passes also find what they
look for in the literals of roles.

* **`IsAnnotated`**, **`HasHead`** — what the passes find in a role;
* `IsPass` — a pass that changes nothing in permissions but their roles;
* **`isPass_annotate`**, **`isPass_declare`** — both passes are such, and each changes just the
  roles in which it finds something. -/

namespace FormScaffold.View

open Text Json

/-! ## Literals in code -/

/-- The characters of a text inside its literal in generated code. -/
def escaped (cs : List Char) : List Char := cs.flatMap (escapeChar .lineSafe)

/-- The literal of a text is written character by character. -/
theorem escaped_cons (c : Char) (cs : List Char) :
    escaped (c :: cs) = escapeChar .lineSafe c ++ escaped cs := List.flatMap_cons

/-- The literal of two texts one behind the other. -/
theorem escaped_append (cs ds : List Char) : escaped (cs ++ ds) = escaped cs ++ escaped ds :=
  List.flatMap_append

/-- The characters that stand for themselves in a literal. -/
def isSelf (c : Char) : Bool := escapeChar .lineSafe c == [c]

/-- A character that stands for itself is written as it is. -/
theorem escaped_cons_of_isSelf {c : Char} (h : isSelf c = true) (cs : List Char) :
    escaped (c :: cs) = c :: escaped cs := by
  rw [escaped_cons, beq_iff_eq.1 h]
  rfl

/-- A text of characters that stand for themselves is its own literal. -/
theorem escaped_of_isSelf {cs : List Char} (h : ∀ c ∈ cs, isSelf c = true) : escaped cs = cs := by
  induction cs with
  | nil => rfl
  | cons c cs ih =>
    obtain ⟨hc, hcs⟩ := List.forall_mem_cons.1 h
    rw [escaped_cons_of_isSelf hc, ih hcs]

/-- What starts with a character that stands for itself is the literal of a text that does. -/
theorem exists_of_escaped_eq_cons {c : Char} (hc : isSelf c = true) (hquote : c ≠ '"')
    {cs rest left : List Char} (h : escaped cs ++ '"' :: rest = c :: left) :
    ∃ ds, cs = c :: ds ∧ left = escaped ds ++ '"' :: rest := by
  cases cs with
  | nil => exact absurd (List.cons.inj h).1.symm hquote
  | cons d ds =>
    rw [escaped_cons, List.append_assoc] at h
    rcases escapeChar_cases .lineSafe d with ⟨hself, -⟩ | ⟨es, hescape, -⟩
    · rw [hself] at h
      obtain ⟨rfl, rfl⟩ := List.cons.inj h
      exact ⟨ds, rfl, rfl⟩
    · rw [hescape] at h
      obtain ⟨rfl, -⟩ := List.cons.inj h
      exact absurd hc (by decide)

/-- A piece of such characters at the start of a literal stands at the start of its text. -/
theorem exists_of_prefix_escaped {piece : List Char}
    (hpiece : ∀ c ∈ piece, isSelf c = true ∧ c ≠ '"') {cs rest : List Char}
    (h : piece <+: escaped cs ++ '"' :: rest) : ∃ ds, cs = piece ++ ds := by
  induction piece generalizing cs with
  | nil => exact ⟨cs, rfl⟩
  | cons c piece ih =>
    obtain ⟨⟨hc, hquote⟩, hpiece⟩ := List.forall_mem_cons.1 hpiece
    obtain ⟨left, hleft⟩ := h
    obtain ⟨ds, rfl, hds⟩ := exists_of_escaped_eq_cons hc hquote hleft.symm
    obtain ⟨es, rfl⟩ := ih hpiece ⟨left, hds⟩
    exact ⟨es, rfl⟩

/-! ## Passes -/

/-- Text in which no pass finds anything. -/
def IsQuiet (cs : List Char) : Prop := ∀ c ∈ cs, c ≠ '#' ∧ c ≠ '='

/-- Quiet text up to a quote or a semicolon. -/
def Opens (cs : List Char) : Prop :=
  ∃ front c rest, cs = front ++ c :: rest ∧ IsQuiet front ∧ (c = '"' ∨ c = ';')

/-- A quote opens at once. -/
theorem opens_quote (cs : List Char) : Opens ('"' :: cs) :=
  ⟨[], '"', cs, rfl, by simp [IsQuiet], .inl rfl⟩

/-- A semicolon opens at once. -/
theorem opens_semicolon (cs : List Char) : Opens (';' :: cs) :=
  ⟨[], ';', cs, rfl, by simp [IsQuiet], .inr rfl⟩

/-- Quiet text in front of one that opens is one that opens. -/
theorem Opens.append {front cs : List Char} (hfront : IsQuiet front) (h : Opens cs) :
    Opens (front ++ cs) := by
  obtain ⟨more, c, rest, rfl, hmore, hc⟩ := h
  refine ⟨front ++ more, c, rest, by rw [List.append_assoc], fun d hd => ?_, hc⟩
  rcases List.mem_append.1 hd with hd | hd
  · exact hfront d hd
  · exact hmore d hd

/-- What follows the literal of a role. -/
def afterRole : List Char := ['"', ':', ' ', '\x7b', '\n']

/-- **A pass over code that changes nothing in permissions but their roles**, and each role to one
that it is related to. -/
structure IsPass (pass : List Char → List Char) (Becomes : List Char → List Char → Prop) :
    Prop where
  quiet : ∀ front rest, IsQuiet front → Opens rest → pass (front ++ rest) = front ++ pass rest
  quote : ∀ rest, pass ('"' :: rest) = '"' :: pass rest
  role : ∀ role rest, ∃ role', Becomes role role' ∧
    pass (escaped role ++ (afterRole ++ rest)) = escaped role' ++ pass (afterRole ++ rest)

/-! ## Annotations -/

/-- The text holds an annotation. -/
def IsAnnotated (cs : List Char) : Prop :=
  ∃ front inside back, cs = front ++ '#' :: '\x7b' :: (inside ++ '\x7d' :: '#' :: back)

/-- A character with which no annotation starts decides nothing about annotations. -/
theorem isAnnotated_cons {c : Char} {cs : List Char}
    (h : ∀ inside back, c :: cs ≠ '#' :: '\x7b' :: (inside ++ '\x7d' :: '#' :: back)) :
    IsAnnotated (c :: cs) ↔ IsAnnotated cs := by
  constructor
  · rintro ⟨front, inside, back, heq⟩
    cases front with
    | nil => exact absurd heq (h inside back)
    | cons d front => exact ⟨front, inside, back, (List.cons.inj heq).2⟩
  · rintro ⟨front, inside, back, rfl⟩
    exact ⟨c :: front, inside, back, rfl⟩

/-- Text in which nothing closes an annotation, nor ends the line, is passed over. -/
theorem untilClose_append {es : List Char} (h : ∀ c ∈ es, c ≠ '\x7d' ∧ c ≠ '\n')
    (rest : List Char) :
    untilClose (es ++ rest) = (untilClose rest).map fun r => (es ++ r.1, r.2) := by
  induction es with
  | nil => simp
  | cons c es ih =>
    obtain ⟨⟨hclose, hlf⟩, hes⟩ := List.forall_mem_cons.1 h
    rw [List.cons_append, untilClose.eq_3 c _ fun _ hc _ => absurd hc hclose,
      if_neg (by simpa using hlf), ih hes, Option.map_map]
    rfl

/-- The letters of escapes are neither the marks of annotations nor the second letter of the head,
so that no pass finds the start of anything in an escape. -/
theorem escapeLetters_ne : ∀ c ∈ '\\' :: escapeLetters,
    c ≠ '#' ∧ c ≠ '\x7b' ∧ c ≠ '\x7d' ∧ c ≠ '\n' ∧ c ≠ 'x' := by decide

/-- A character of a literal that is no start of a closing mark is passed over. -/
theorem untilClose_escapeChar {c : Char} {rest : List Char}
    (h : ∀ left, c = '\x7d' → rest = '#' :: left → False) :
    untilClose (escapeChar .lineSafe c ++ rest) =
      (untilClose rest).map fun r => (escapeChar .lineSafe c ++ r.1, r.2) := by
  rcases escapeChar_cases .lineSafe c with ⟨hself, -, -, hplain⟩ | ⟨es, hescape, hes⟩
  · have hlf : ¬(c == '\n') = true := by
      intro hc
      rw [beq_iff_eq.1 hc] at hplain
      exact absurd hplain (by decide)
    rw [hself, List.singleton_append, untilClose.eq_3 c rest h, if_neg hlf]
    rfl
  · rw [hescape]
    refine untilClose_append (fun d hd => ?_) rest
    have hd' := escapeLetters_ne d (List.mem_cons.2 ((List.mem_cons.1 hd).imp_right (hes d)))
    exact ⟨hd'.2.2.1, hd'.2.2.2.1⟩

/-- **In a literal an annotation is closed where it is closed in the text.** No escape has the
closing mark in it, and none hides one. -/
theorem untilClose_escaped (cs : List Char) {tail : List Char}
    (htail : untilClose ('"' :: tail) = none) :
    (untilClose (escaped cs ++ '"' :: tail) = none ∧
        ∀ inside back, cs ≠ inside ++ '\x7d' :: '#' :: back) ∨
      ∃ inside back, cs = inside ++ '\x7d' :: '#' :: back ∧
        untilClose (escaped cs ++ '"' :: tail) =
          some (escaped inside, escaped back ++ '"' :: tail) := by
  induction cs with
  | nil => exact .inl ⟨htail, by simp⟩
  | cons c cs ih =>
    by_cases hclose : ∃ back, c :: cs = '\x7d' :: '#' :: back
    · obtain ⟨back, heq⟩ := hclose
      refine .inr ⟨[], back, heq, ?_⟩
      rw [heq, escaped_cons_of_isSelf (by decide), escaped_cons_of_isSelf (by decide)]
      rfl
    · -- Escaping writes `#` as itself, so a close among the escapes is one in the text.
      have hopen : ∀ left, c = '\x7d' → escaped cs ++ '"' :: tail = '#' :: left → False := by
        rintro left rfl hleft
        obtain ⟨ds, rfl, -⟩ := exists_of_escaped_eq_cons (by decide) (by decide) hleft
        exact hclose ⟨ds, rfl⟩
      rw [escaped_cons, List.append_assoc, untilClose_escapeChar hopen]
      rcases ih with ⟨hnone, hcs⟩ | ⟨inside, back, rfl, hsome⟩
      · refine .inl ⟨by rw [hnone]; rfl, fun inside back heq => ?_⟩
        cases inside with
        | nil => exact hclose ⟨back, heq⟩
        | cons d inside => exact hcs inside back (List.cons.inj heq).2
      · refine .inr ⟨c :: inside, back, rfl, ?_⟩
        rw [hsome, escaped_cons]
        rfl

/-- What settling annotations makes of a role: it leaves a role without any, and takes marks out of
one with some. -/
def Settled (role role' : List Char) : Prop :=
  (¬IsAnnotated role ∧ role' = role) ∨
    (IsAnnotated role ∧ role'.count '#' < role.count '#')

/-- Settling annotations never adds marks to a role. -/
theorem Settled.count_le {role role' : List Char} (h : Settled role role') :
    role'.count '#' ≤ role.count '#' := by
  rcases h with ⟨-, rfl⟩ | ⟨-, h⟩
  · exact le_rfl
  · exact h.le

/-- A character in front of what is settled, when no annotation starts with it. -/
theorem Settled.cons {c : Char} {role role' : List Char} (h : Settled role role')
    (hc : ∀ inside back, c :: role ≠ '#' :: '\x7b' :: (inside ++ '\x7d' :: '#' :: back)) :
    Settled (c :: role) (c :: role') := by
  unfold Settled at h ⊢
  rw [isAnnotated_cons hc, List.count_cons, List.count_cons]
  rcases h with ⟨hnone, rfl⟩ | ⟨hsome, hcount⟩
  · exact .inl ⟨hnone, rfl⟩
  · exact .inr ⟨hsome, by omega⟩

/-- Text without a mark is left alone. -/
theorem annotate_append (language : Language) {front : List Char} (h : ∀ c ∈ front, c ≠ '#')
    (rest : List Char) : annotate language (front ++ rest) = front ++ annotate language rest := by
  induction front with
  | nil => rfl
  | cons c front ih =>
    obtain ⟨hc, hfront⟩ := List.forall_mem_cons.1 h
    rw [List.cons_append, annotate.eq_3 language c _ fun _ hmark _ => absurd hmark hc, ih hfront]
    rfl

/-- The literal of a character with which no annotation starts is left alone. -/
theorem annotate_escapeChar (language : Language) {c : Char} {rest : List Char}
    (h : ∀ left, c = '#' → rest = '\x7b' :: left → False) :
    annotate language (escapeChar .lineSafe c ++ rest) =
      escapeChar .lineSafe c ++ annotate language rest := by
  rcases escapeChar_cases .lineSafe c with ⟨hself, -⟩ | ⟨es, hescape, hes⟩
  · rw [hself, List.singleton_append, annotate.eq_3 language c rest h]
    rfl
  · rw [hescape]
    refine annotate_append language (fun d hd => ?_) rest
    exact (escapeLetters_ne d (List.mem_cons.2 ((List.mem_cons.1 hd).imp_right (hes d)))).1

/-- **Annotations are settled in the literal of a role.** The marks of annotations stand for
themselves in literals. -/
theorem annotate_escaped (language : Language) {tail : List Char}
    (htail : untilClose ('"' :: tail) = none) (role : List Char) :
    ∃ role', Settled role role' ∧ annotate language (escaped role ++ '"' :: tail) =
      escaped role' ++ annotate language ('"' :: tail) := by
  -- An annotation is settled as a whole, so that the induction is on the length of the role.
  induction hn : role.length using Nat.strongRecOn generalizing role with
  | _ n ih =>
    subst hn
    cases role with
    | nil => exact ⟨[], .inl ⟨by simp [IsAnnotated], rfl⟩, rfl⟩
    | cons c cs =>
      by_cases hopen : ∃ rest, c :: cs = '#' :: '\x7b' :: rest
      · obtain ⟨rest, heq⟩ := hopen
        rw [heq, escaped_cons_of_isSelf (by decide), escaped_cons_of_isSelf (by decide)]
        rcases untilClose_escaped rest htail with ⟨hnone, hrest⟩ | ⟨inside, back, rfl, hsome⟩
        · obtain ⟨role', hsettled, hrole⟩ := ih ('\x7b' :: rest).length (by simp [heq]) _ rfl
          refine ⟨'#' :: role', hsettled.cons fun inside back h => ?_, ?_⟩
          · exact hrest inside back (List.cons.inj (List.cons.inj h).2).2
          · rw [escaped_cons_of_isSelf (by decide)] at hrole ⊢
            rw [List.cons_append, List.cons_append, annotate_of_open language hnone]
            exact congrArg _ hrole
        · obtain ⟨back', hsettled, hback⟩ := ih back.length (by rw [heq]; simp; omega) _ rfl
          refine ⟨(match language with
            | .ts => inside
            | .js => []) ++ back', .inr ⟨⟨[], inside, back, rfl⟩, ?_⟩, ?_⟩
          · have hcount := hsettled.count_le
            cases language <;> simp <;> omega
          · rw [List.cons_append, List.cons_append, annotate_of_close language hsome, hback,
              escaped_append, List.append_assoc]
            cases language <;> rfl
      · have hnot : ∀ left, c = '#' → escaped cs ++ '"' :: tail = '\x7b' :: left → False := by
          rintro left rfl hleft
          obtain ⟨ds, rfl, -⟩ := exists_of_escaped_eq_cons (by decide) (by decide) hleft
          exact hopen ⟨ds, rfl⟩
        obtain ⟨cs', hsettled, hcs⟩ := ih cs.length (by simp) _ rfl
        refine ⟨c :: cs', hsettled.cons fun inside back h => hopen ⟨_, h⟩, ?_⟩
        rw [escaped_cons, List.append_assoc, annotate_escapeChar language hnot, hcs, escaped_cons,
          List.append_assoc]

/-- **Settling annotations changes just the roles that hold some.** What an annotation has in it may
stay or go, as the language has it; its marks always go. -/
theorem isPass_annotate (language : Language) : IsPass (annotate language) Settled where
  quiet front rest hfront _ := annotate_append language (fun c hc => (hfront c hc).1) rest
  quote rest := annotate_append language (show ∀ c ∈ ['"'], c ≠ '#' by decide) rest
  role role rest := annotate_escaped language rfl role

/-! ## Declared types -/

/-- The head of the permissions behind its first letter. -/
def headTail : List Char := "xport const PERMISSIONS = ".toList

/-- The head with its type behind its first letter. -/
def typedHeadTail : List Char :=
  "xport const PERMISSIONS: Record<string, Record<string, boolean>> = ".toList

/-- The head of the permissions starts with a letter that escapes can end in as well. -/
theorem permissionsHead_eq : permissionsHead.toList = 'e' :: headTail := by decide

/-- The head with the type starts with the same letter. -/
theorem typedPermissionsHead_eq : typedPermissionsHead.toList = 'e' :: typedHeadTail := by decide

/-- The head of the permissions replaced by the one with their type. -/
def declare (cs : List Char) : List Char :=
  replaceAll permissionsHead.toList typedPermissionsHead.toList cs

/-- **The literal of the role holds the head of the permissions**: the first letter of the head is a
letter of the role, or the last one of an escape. -/
def HasHead (role : List Char) : Prop :=
  ∃ front c back, role = front ++ c :: (headTail ++ back) ∧
    (escapeChar .lineSafe c).getLast? = some 'e'

/-- What writing the type into the head makes of a role. -/
def Declared (role role' : List Char) : Prop :=
  role'.count '#' ≤ role.count '#' ∧
    ((¬HasHead role ∧ role' = role) ∨ (HasHead role ∧ role.length < role'.length))

/-- A character with which the head does not start is passed over. -/
theorem declare_cons {c : Char} {cs : List Char} (h : ¬permissionsHead.toList <+: c :: cs) :
    declare (c :: cs) = c :: declare cs := by
  rw [declare, replaceAll, replaceFrom, if_neg (mt List.isPrefixOf_iff_prefix.1 h)]
  rfl

/-- Where the head stands, the type is written into it. -/
theorem declare_head (cs : List Char) :
    declare ('e' :: (headTail ++ cs)) = 'e' :: (typedHeadTail ++ declare cs) := by
  have hprefix : permissionsHead.toList.isPrefixOf ('e' :: (headTail ++ cs)) = true := by
    rw [List.isPrefixOf_iff_prefix, permissionsHead_eq]
    exact ⟨cs, rfl⟩
  have hlength : permissionsHead.toList.length - 1 = headTail.length := by decide
  rw [declare, replaceAll, replaceFrom, if_pos hprefix, replaceFrom_eq_drop, hlength,
    List.drop_left, typedPermissionsHead_eq]
  rfl

/-- What the head can neither lie in nor reach over is passed over. -/
theorem declare_append {front rest : List Char}
    (h : ∀ a b, front = a ++ b → b ≠ [] → ¬permissionsHead.toList <+: b ++ rest) :
    declare (front ++ rest) = front ++ declare rest := by
  induction front with
  | nil => rfl
  | cons c front ih =>
    have hfront : declare (front ++ rest) = front ++ declare rest := by
      refine ih ?_
      rintro a b rfl hb
      exact h (c :: a) b rfl hb
    exact (declare_cons (h [] (c :: front) rfl (List.cons_ne_nil _ _))).trans
      (congrArg _ hfront)

/-- The head does not stand at the start of quiet text. -/
theorem not_prefix_of_quiet {front : List Char} (hfront : IsQuiet front) {c : Char}
    (hc : c = '"' ∨ c = ';') (rest : List Char) :
    ¬permissionsHead.toList <+: front ++ c :: rest := by
  intro h
  have hequals : '=' ∈ permissionsHead.toList := by decide
  have hnot : c ∉ permissionsHead.toList := by rcases hc with rfl | rfl <;> decide
  have hsplit : front ++ [c] <+: front ++ c :: rest := ⟨rest, by simp⟩
  rcases List.prefix_or_prefix_of_prefix h hsplit with h | h
  · rcases List.mem_append.1 (h.subset hequals) with hmem | hmem
    · exact (hfront _ hmem).2 rfl
    · rw [List.mem_singleton.1 hmem] at hequals
      exact hnot hequals
  · exact hnot (h.subset (by simp))

/-- The last letter of an escape, and the others, behind none of which the head goes on. -/
theorem exists_escapeChar (c : Char) :
    ∃ front x, escapeChar .lineSafe c = front ++ [x] ∧ ∀ d ∈ (front ++ [x]).tail, d ≠ 'x' := by
  rcases escapeChar_cases .lineSafe c with ⟨hself, -⟩ | ⟨es, hescape, hes⟩
  · exact ⟨[], c, hself, by simp⟩
  · rcases List.eq_nil_or_concat es with rfl | ⟨front, x, rfl⟩
    · exact ⟨[], '\\', hescape, by simp⟩
    · refine ⟨'\\' :: front, x, by rw [hescape, List.concat_eq_append, List.cons_append], ?_⟩
      intro d hd
      rw [List.cons_append, List.tail_cons, ← List.concat_eq_append] at hd
      exact (escapeLetters_ne d (List.mem_cons_of_mem _ (hes d hd))).2.2.2.2

/-- The second letter of the head, which no escape has in it. -/
theorem headTail_eq : headTail = 'x' :: headTail.tail := by decide

/-- The head behind its first letter stands for itself in literals, and no quote is in it. -/
theorem isSelf_of_mem_headTail : ∀ c ∈ headTail, isSelf c = true ∧ c ≠ '"' := by decide

/-- The head with the type stands for itself in literals as well. -/
theorem isSelf_of_mem_typedHeadTail : ∀ c ∈ typedHeadTail, isSelf c = true := by decide

/-- A character behind which no head goes on decides nothing about heads. -/
theorem hasHead_cons {c : Char} {cs : List Char}
    (h : ∀ back, cs = headTail ++ back → (escapeChar .lineSafe c).getLast? ≠ some 'e') :
    HasHead (c :: cs) ↔ HasHead cs := by
  constructor
  · rintro ⟨front, d, back, heq, hd⟩
    cases front with
    | nil =>
      obtain ⟨rfl, hcs⟩ := List.cons.inj heq
      exact absurd hd (h back hcs)
    | cons e front => exact ⟨front, d, back, (List.cons.inj heq).2, hd⟩
  · rintro ⟨front, d, back, rfl, hd⟩
    exact ⟨c :: front, d, back, rfl, hd⟩

/-- Writing types into heads never makes a role shorter. -/
theorem Declared.length_le {role role' : List Char} (h : Declared role role') :
    role.length ≤ role'.length := by
  rcases h.2 with ⟨-, rfl⟩ | ⟨-, h⟩
  · exact le_rfl
  · exact h.le

/-- A character behind which no head goes on stays. -/
theorem Declared.cons {c : Char} {cs cs' : List Char} (h : Declared cs cs')
    (hhead : ∀ back, cs = headTail ++ back → (escapeChar .lineSafe c).getLast? ≠ some 'e') :
    Declared (c :: cs) (c :: cs') := by
  obtain ⟨hcount, hdeclared⟩ := h
  refine ⟨?_, ?_⟩
  · rw [List.count_cons, List.count_cons]
    omega
  · rw [hasHead_cons hhead]
    rcases hdeclared with ⟨hnone, rfl⟩ | ⟨hsome, hlength⟩
    · exact .inl ⟨hnone, rfl⟩
    · exact .inr ⟨hsome, Nat.succ_lt_succ hlength⟩

/-- A head gets its type, which makes the role longer. -/
theorem Declared.head {c : Char} {back back' : List Char} (h : Declared back back')
    (hlast : (escapeChar .lineSafe c).getLast? = some 'e') :
    Declared (c :: (headTail ++ back)) (c :: (typedHeadTail ++ back')) := by
  have hle := h.length_le
  have hcount := h.1
  have htyped : typedHeadTail.count '#' = 0 := by decide
  have hlength : headTail.length < typedHeadTail.length := by decide
  refine ⟨?_, .inr ⟨⟨[], c, back, rfl, hlast⟩, ?_⟩⟩
  · rw [List.count_cons, List.count_cons, List.count_append, List.count_append, htyped]
    omega
  · simp only [List.length_cons, List.length_append]
    omega

/-- Behind no letter of an escape but the last one the head goes on. -/
theorem declare_escape {front : List Char} {x : Char} (hx : ∀ d ∈ (front ++ [x]).tail, d ≠ 'x')
    (rest : List Char) : declare (front ++ x :: rest) = front ++ declare (x :: rest) := by
  refine declare_append ?_
  rintro a b rfl hb hprefix
  obtain ⟨d, b, rfl⟩ := List.exists_cons_of_ne_nil hb
  rw [permissionsHead_eq, headTail_eq, List.cons_append] at hprefix
  have hnext := (List.cons_prefix_cons.1 hprefix).2
  have hmem : 'x' ∈ b ++ [x] := by
    cases b with
    | nil => exact List.mem_singleton.2 (List.cons_prefix_cons.1 hnext).1
    | cons e b => exact List.mem_cons.2 (.inl (List.cons_prefix_cons.1 hnext).1)
  have htail : b ++ [x] ⊆ (a ++ d :: b ++ [x]).tail := by
    cases a <;> simp
  exact hx 'x' (htail hmem) rfl

/-- **The type is written into the literal of a role.** The first letter of the head may be the last
one of an escape, and all others stand for themselves. -/
theorem declare_escaped (tail role : List Char) :
    ∃ role', Declared role role' ∧
      declare (escaped role ++ '"' :: tail) = escaped role' ++ declare ('"' :: tail) := by
  -- Where a head begins, the whole of it is passed over at once, so the induction is on the length.
  induction hn : role.length using Nat.strongRecOn generalizing role with
  | _ n ih =>
    subst hn
    cases role with
    | nil => exact ⟨[], ⟨le_rfl, .inl ⟨by simp [HasHead], rfl⟩⟩, rfl⟩
    | cons c cs =>
      obtain ⟨front, x, hescape, hx⟩ := exists_escapeChar c
      have hlast : (escapeChar .lineSafe c).getLast? = some x := by
        rw [hescape, List.getLast?_concat]
      by_cases hhead : x = 'e' ∧ ∃ back, cs = headTail ++ back
      · obtain ⟨rfl, back, rfl⟩ := hhead
        have hshorter : back.length < (c :: (headTail ++ back)).length := by
          rw [List.length_cons, List.length_append]
          omega
        obtain ⟨back', hdeclared, hback⟩ := ih back.length hshorter _ rfl
        refine ⟨c :: (typedHeadTail ++ back'), hdeclared.head hlast, ?_⟩
        rw [escaped_cons, escaped_append,
          escaped_of_isSelf fun d hd => (isSelf_of_mem_headTail d hd).1, escaped_cons,
          escaped_append, escaped_of_isSelf isSelf_of_mem_typedHeadTail, hescape]
        simp only [List.append_assoc, List.cons_append, List.nil_append]
        rw [declare_escape hx, declare_head, hback]
      · have hnot : ¬permissionsHead.toList <+: x :: (escaped cs ++ '"' :: tail) := by
          intro hprefix
          rw [permissionsHead_eq] at hprefix
          obtain ⟨rfl, hrest⟩ := List.cons_prefix_cons.1 hprefix
          exact hhead ⟨rfl, exists_of_prefix_escaped isSelf_of_mem_headTail hrest⟩
        obtain ⟨cs', hdeclared, hcs⟩ := ih cs.length (by simp) _ rfl
        refine ⟨c :: cs', hdeclared.cons fun back hback he => hhead ⟨?_, back, hback⟩, ?_⟩
        · rw [hlast] at he
          exact Option.some.inj he
        · rw [escaped_cons, escaped_cons, hescape]
          simp only [List.append_assoc, List.cons_append, List.nil_append]
          rw [declare_escape hx, declare_cons hnot, hcs]

/-- **Writing the type into the head changes just the roles whose literals hold it.** The type makes
the role longer, by which it is known to have changed. -/
theorem isPass_declare : IsPass declare Declared where
  quiet front rest hfront hrest := by
    obtain ⟨more, c, left, rfl, hmore, hc⟩ := hrest
    refine declare_append ?_
    rintro a b rfl -
    rw [← List.append_assoc]
    refine not_prefix_of_quiet (fun d hd => ?_) hc left
    rcases List.mem_append.1 hd with hd | hd
    · exact hfront d (List.mem_append_right _ hd)
    · exact hmore d hd
  quote rest := declare_cons (by rw [permissionsHead_eq]; simp [List.cons_prefix_cons])
  role role rest := declare_escaped _ role

end FormScaffold.View
