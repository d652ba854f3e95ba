import FormScaffold.Files.Path
import FormScaffold.Json.Printer
import FormScaffold.Number.Reading
import FormScaffold.Text.Quoted
import FormScaffold.Value.Compare
import FormScaffold.Value.Display

/-!
# Values of the wrong shape

Raw metadata is used as records, lists, numbers and keys without a schema that would promise these
shapes. A use that does not fit the value is a fault. This module holds the uses and their faults.

Main definitions: `Fault`; `Value.entries`, `Value.elements`, `Value.toInt` and `Value.asRecord`.
-/

namespace FormScaffold

/-- Why a raw value cannot be used as it is needed. -/
inductive Fault where
  /-- Entries were asked of a value that is no record. -/
  | notRecord
  /-- A text was needed. -/
  | notText
  /-- The value has no elements. -/
  | notIterable
  /-- A list or record cannot be a key. -/
  | notKey
  /-- Keys of different kinds have no order. -/
  | notOrdered
  /-- Only a text can be searched. -/
  | notSearchable
  /-- The value has no whole number. -/
  | notNumeric
  /-- The text writes no whole number. -/
  | notWhole (text : String)
  /-- Not a number has no whole part. -/
  | undefinedNumber
  /-- An infinity has no whole part. -/
  | endless
  /-- The element at the place is no pair, having no elements. -/
  | notPair (place : Nat)
  /-- The element at the place is no pair, having another number of elements. -/
  | pairLength (place length : Nat)
  /-- A key is missing. -/
  | absentKey
  /-- Bytes that are no text. -/
  | undecodable
  /-- A text that has no bytes. -/
  | unencodable
  /-- A path that names them cannot be followed. -/
  | path (e : PathError)
  deriving DecidableEq, Repr

/-- The fault in words, where it is worded. -/
def Fault.message? : Fault → Option String
  | .notWhole text => some ("invalid literal for int() with base 10: " ++ Text.quoted text)
  | .undefinedNumber => some "cannot convert float NaN to integer"
  | .pairLength place length =>
    some ("dictionary update sequence element #" ++ toString place ++ " has length " ++
      toString length ++ "; 2 is required")
  | .path e => e.message?
  | _ => none

namespace Value

/-- The entries of a record. -/
def entries : Value → Except Fault Entries
  | .record es => .ok es
  | _ => .error .notRecord

/-- A record has its entries. -/
@[simp] theorem entries_record (es : Entries) : entries (.record es) = .ok es := rfl

/-- The elements of a value: the items of a list, the code points of a text, the keys of a record.
-/
def elements : Value → Except Fault (List Value)
  | .list vs => .ok vs
  | .text s => .ok ((Text.units s.toList).map fun u => .text (String.ofList u.2))
  | .record es => .ok (es.map fun e => .text e.1)
  | _ => .error .notIterable

/-- A list has its items. -/
@[simp] theorem elements_list (vs : List Value) : elements (.list vs) = .ok vs := rfl

/-- The elements of a value that counts as true; any other value has none. -/
def elementsOrNone (v : Value) : Except Fault (List Value) :=
  if v.truthy then v.elements else .ok []

/-- Whether the value can be a key: everything but lists and records. -/
def isKey : Value → Bool
  | .list _ => false
  | .record _ => false
  | _ => true

/-- A value that is used as a key. -/
def key (v : Value) : Except Fault Value := if v.isKey then .ok v else .error .notKey

/-- A text can be a key. -/
@[simp] theorem key_text (s : String) : key (.text s) = .ok (.text s) := rfl

/-- The whole number that a value has or writes. -/
def toInt : Value → Except Fault Int
  | .int n => .ok n
  | .bool b => .ok b.toNat
  | .real x =>
    match x, x.truncate? with
    | _, some n => .ok n
    | .nan, none => .error .undefinedNumber
    | _, none => .error .endless
  | .text s =>
    match Number.readInt? s.toList with
    | some n => .ok n
    | none => .error (.notWhole s)
  | _ => .error .notNumeric

/-- The whole number of a value, or another number where there is none. An infinity stays a
fault. -/
def toIntOr (v : Value) (other : Int) : Except Fault Int :=
  match v.toInt with
  | .ok n => .ok n
  | .error .endless => .error .endless
  | .error _ => .ok other

/-- The floating number that a value has or writes; none when there is none. -/
def toReal? : Value → Option Real64
  | .int n => some (Real64.ofInt n)
  | .bool b => some (Real64.ofInt b.toNat)
  | .real x => some x
  | .text s => Number.readReal? s.toList
  | _ => none

/-- A key as the name of an entry. -/
def entryName (v : Value) : Except Fault String :=
  if v.isKey then .ok (Json.keyText v) else .error .notKey

/-- The entry that the element at a place of a list of pairs makes. -/
def pairAt (place : Nat) (v : Value) : Except Fault (String × Value) :=
  match v.elements with
  | .error _ => .error (.notPair place)
  | .ok [k, w] => do return (← k.entryName, w)
  | .ok vs => .error (.pairLength place vs.length)

/-- The record that pairs make, read from the given place on. -/
def recordOfPairs (place : Nat) (made : Entries) : List Value → Except Fault Entries
  | [] => .ok made
  | v :: vs => do
    let (k, w) ← pairAt place v
    recordOfPairs (place + 1) (made.put k w) vs

/-- A value as a record of its own: a record as it is, anything else by its elements as pairs. -/
def asRecord : Value → Except Fault Entries
  | .record es => .ok es
  | v => do recordOfPairs 0 [] (← v.elements)

/-- A record is a record as it is. -/
@[simp] theorem asRecord_record (es : Entries) : asRecord (.record es) = .ok es := rfl

end Value

end FormScaffold
