import FormScaffold.Compile.Engine

/-!
# Bodies of requests

A request asks to generate or to sync an entity. Its body is a record of raw values; all that is
wrong with it is reported, by the names of its fields.

Main definitions: `GenerateBody.read` and `SyncBody.read`.
-/

namespace FormScaffold

/-- What is wrong with a field of a body. -/
inductive BodyFlaw where
  | missing
  | notText
  | tooShort
  /-- None of the words that are allowed. -/
  | notChoice
  | notBool
  /-- A word or number for neither true nor false. -/
  | unreadableBool
  deriving DecidableEq, Repr

/-- The word for a flaw. -/
def BodyFlaw.word : BodyFlaw → String
  | .missing => "missing"
  | .notText => "string_type"
  | .tooShort => "string_too_short"
  | .notChoice => "literal_error"
  | .notBool => "bool_type"
  | .unreadableBool => "bool_parsing"

/-- A field of a body that was read, with its name. -/
structure BodyField (α : Type) where
  name : String
  result : Except BodyFlaw α

namespace BodyField

variable {α : Type}

/-- The flaw of a field, with its name. -/
def flaws (f : BodyField α) : List (String × BodyFlaw) :=
  match f.result with
  | .ok _ => []
  | .error flaw => [(f.name, flaw)]

end BodyField

/-- A field that has to be there. -/
def required {α : Type} (es : Entries) (name : String) (read : Value → Except BodyFlaw α) :
    BodyField α :=
  ⟨name, match es.get? name with
    | none => .error .missing
    | some v => read v⟩

/-- A field that has a value of its own when it is not there. -/
def optional {α : Type} (es : Entries) (name : String) (other : α)
    (read : Value → Except BodyFlaw α) : BodyField α :=
  ⟨name, match es.get? name with
    | none => .ok other
    | some v => read v⟩

/-- A text. -/
def readText : Value → Except BodyFlaw String
  | .text s => .ok s
  | _ => .error .notText

/-- A text that is not empty. -/
def readName (v : Value) : Except BodyFlaw String := do
  let s ← readText v
  if s == "" then .error .tooShort else return s

/-- One of a few words. -/
def readChoice (words : List String) : Value → Except BodyFlaw String
  | .text s => if words.contains s then .ok s else .error .notChoice
  | _ => .error .notChoice

/-- One of a few words, or null. -/
def readChoice? (words : List String) : Value → Except BodyFlaw (Option String)
  | .null => .ok none
  | v => (readChoice words v).map some

/-- The words for false. -/
def falseWords : List String := ["0", "f", "n", "no", "off", "false"]

/-- The words for true. -/
def trueWords : List String := ["1", "t", "y", "yes", "on", "true"]

/-- The truth value of a number. -/
def boolOfInt (n : Int) : Except BodyFlaw Bool :=
  if n == 0 then .ok false else if n == 1 then .ok true else .error .unreadableBool

/-- The numbers that are looked at as truth values. -/
def isWordSized (n : Int) : Bool := -0x8000000000000000 ≤ n && n < 0x8000000000000000

/-- A truth value, or a word or number for one. -/
def readBool : Value → Except BodyFlaw Bool
  | .bool b => .ok b
  | .int n => if isWordSized n then boolOfInt n else .error .notBool
  | .real x =>
    match x.truncate? with
    | some n =>
      if x.compareInt? n == some .eq && isWordSized n then boolOfInt n else .error .notBool
    | none => .error .notBool
  | .text s =>
    let word := Text.lowerAscii s
    if falseWords.contains word then .ok false
    else if trueWords.contains word then .ok true
    else .error .unreadableBool
  | _ => .error .notBool

/-- The names of the presets. -/
def presetWords : List String := Preset.all.map Preset.name

/-- The words for the languages. -/
def languageWords : List String := [Language.js, .ts].map Language.word

/-- Flaws in order of the names of their fields. -/
def sortFlaws (flaws : List (String × BodyFlaw)) : List (String × BodyFlaw) :=
  flaws.mergeSort fun a b => decide (a.1 ≤ b.1)

/-- A request to generate an entity. -/
structure GenerateBody where
  entity : String
  preset : String
  mode : String
  language : Option String
  deriving DecidableEq, Repr

/-- The request of a body, or all that is wrong with it. -/
def GenerateBody.read (es : Entries) : Except (List (String × BodyFlaw)) GenerateBody :=
  let entity := required es "entity_name" readName
  let preset := optional es "style_preset" "plain" (readChoice presetWords)
  let mode := optional es "output_mode" "inline"
    (readChoice ([OutputMode.inline, .archive].map OutputMode.word))
  let language := optional es "language" none (readChoice? languageWords)
  match entity.result, preset.result, mode.result, language.result with
  | .ok e, .ok p, .ok m, .ok l => .ok ⟨e, p, m, l⟩
  | _, _, _, _ => .error (sortFlaws (entity.flaws ++ preset.flaws ++ mode.flaws ++ language.flaws))

/-- A request to sync an entity. -/
structure SyncBody where
  entity : String
  root : String
  preset : String
  strategy : String
  dryRun : Bool
  language : Option String
  deriving DecidableEq, Repr

/-- The request of a body, or all that is wrong with it. -/
def SyncBody.read (es : Entries) : Except (List (String × BodyFlaw)) SyncBody :=
  let entity := required es "entity_name" readName
  let root := required es "destination_root" readText
  let preset := optional es "style_preset" "plain" (readChoice presetWords)
  let strategy := optional es "strategy" "respect-manual"
    (readChoice ([Region.Strategy.respectManual, .overwriteAuto].map Region.Strategy.word))
  let dryRun := optional es "dry_run" false readBool
  let language := optional es "language" none (readChoice? languageWords)
  match entity.result, root.result, preset.result, strategy.result, dryRun.result,
    language.result with
  | .ok e, .ok r, .ok p, .ok s, .ok d, .ok l => .ok ⟨e, r, p, s, d, l⟩
  | _, _, _, _, _, _ => .error (sortFlaws (entity.flaws ++ root.flaws ++ preset.flaws ++
      strategy.flaws ++ dryRun.flaws ++ language.flaws))

end FormScaffold
