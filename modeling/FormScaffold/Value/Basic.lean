import FormScaffold.Number.Real64
import FormScaffold.Text.Blank
import FormScaffold.Text.Case

/-!
# Dynamic values

Metadata arrives as values whose shape is not known beforehand: nothing, truth values, whole and
floating numbers, text, lists, and records that keep their keys in order. A flag of the metadata is
a truth value, a number, or a word for yes or no: words count as yes only when they are one of a
few, any other value when it counts as true.

Main definitions: `Value`, the look-up `Entries.get?`, `Value.truthy`, which says when a value
counts as true, and `Value.flag`, which says when it counts as yes.
-/

namespace FormScaffold

/-- A value of unknown shape. Whole numbers have no bound; records keep the order of their keys. -/
inductive Value where
  | null
  | bool (b : Bool)
  | int (n : Int)
  | real (x : Real64)
  | text (s : String)
  | list (items : List Value)
  | record (entries : List (String × Value))
  deriving Repr, Inhabited

/-- The entries of a record, in order. -/
abbrev Entries := List (String × Value)

namespace Entries

/-- The value under a key; of repeated keys the first counts. -/
def get? (es : Entries) (key : String) : Option Value :=
  (es.find? (·.1 == key)).map (·.2)

/-- The value under a key, nothing when the key is absent. -/
def get (es : Entries) (key : String) : Value := (es.get? key).getD .null

/-- Whether the key is present. -/
def has (es : Entries) (key : String) : Bool := es.any (·.1 == key)

/-- Puts a value under a key: in place when the key is present, else at the end. -/
def put : Entries → String → Value → Entries
  | [], key, v => [(key, v)]
  | (k, old) :: rest, key, v => if k == key then (k, v) :: rest else (k, old) :: put rest key v

/-- Nothing stands in no entries. -/
@[simp] theorem get?_nil (key : String) : get? [] key = none := rfl

/-- What stands under a key is found at its first entry. -/
theorem get?_cons (k : String) (v : Value) (es : Entries) (key : String) :
    get? ((k, v) :: es) key = if k == key then some v else get? es key := by
  by_cases h : k == key <;> simp [get?, h]

/-- What was put under a key is found there, and nothing else changes. -/
theorem get?_put (es : Entries) (key other : String) (v : Value) :
    get? (put es key v) other = if key == other then some v else get? es other := by
  induction es with
  | nil => simp [put, get?_cons]
  | cons e es ih =>
    obtain ⟨k, old⟩ := e
    by_cases h : k = key
    · subst h
      by_cases ho : k = other <;> simp [put, get?_cons, ho]
    · by_cases ho : key = other
      · subst ho
        simp [put, h, get?_cons, ih]
      · simp [put, h, get?_cons, ih, ho]

end Entries

namespace Value

/-- Whether a value counts as true: nothing, false, zero and everything empty do not. -/
def truthy : Value → Bool
  | .null => false
  | .bool b => b
  | .int n => n != 0
  | .real x => !x.isZero
  | .text s => s != ""
  | .list items => !items.isEmpty
  | .record entries => !entries.isEmpty

/-- Nothing does not count. -/
@[simp] theorem truthy_null : truthy .null = false := rfl

/-- A truth value counts as it says. -/
@[simp] theorem truthy_bool (b : Bool) : truthy (.bool b) = b := rfl

/-- The value when it counts as true, else the other one. -/
def orElse (v other : Value) : Value := if v.truthy then v else other

/-- Whether the value is nothing. -/
def isNull : Value → Bool
  | .null => true
  | _ => false

/-- A text, or nothing. -/
def ofText? : Option String → Value
  | some s => .text s
  | none => .null

/-- A list of texts. -/
def ofTexts (ss : List String) : Value := .list (ss.map .text)

/-- A natural number. -/
def ofNat (n : Nat) : Value := .int n

/-! ## Flags -/

/-- The words for yes, in small letters. -/
def yesWords : List String := ["1", "true", "yes", "y", "on"]

/-- Whether a text is a word for yes. -/
def isYes (s : String) : Bool := yesWords.contains (Text.lowerAscii (Text.strip s))

/-- Whether a value counts as yes. -/
def flag : Value → Bool
  | .text s => isYes s
  | v => v.truthy

/-- A truth value reads as it says. -/
@[simp] theorem flag_bool (b : Bool) : flag (.bool b) = b := rfl

/-- Nothing reads as no. -/
@[simp] theorem flag_null : flag .null = false := rfl

end Value

end FormScaffold
