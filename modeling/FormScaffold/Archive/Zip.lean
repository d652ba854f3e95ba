import FormScaffold.Archive.Deflate
import FormScaffold.Text.CodePoint

/-!
# Zip files

A zip file holds entries, each behind a header of its own, then a directory with all of them and a
record that says where the directory is. What stands before the first entry, and a comment at the
end, do not count.

Main definitions: `Zip.Entry`, `Zip.write`, `Zip.directory` and `Zip.contents`.
-/

namespace FormScaffold.Archive

/-! ## The checksum of bytes

The remainder of the bytes, read as a polynomial, by the polynomial of the 32-bit cyclic redundancy
check; the lowest bit comes first. -/

/-- The polynomial, lowest bit first. -/
def checkPolynomial : UInt32 := 0xEDB88320

/-- The remainder after so many bits. -/
def checkBits (crc : UInt32) : Nat → UInt32
  | 0 => crc
  | n + 1 => checkBits (if crc &&& 1 == 1 then (crc >>> 1) ^^^ checkPolynomial else crc >>> 1) n

/-- The remainder after a byte. -/
def checkByte (crc : UInt32) (b : UInt8) : UInt32 := checkBits (crc ^^^ b.toUInt32) 8

/-- The checksum of bytes. -/
def checksum (bytes : List UInt8) : UInt32 := bytes.foldl checkByte 0xFFFFFFFF ^^^ 0xFFFFFFFF

example : checksum "123456789".toUTF8.toList = 0xCBF43926 := by decide +kernel

namespace Zip

/-- Why a zip file cannot be read. -/
inductive ZipError where
  /-- It is no zip file, or a damaged one. -/
  | corrupt
  /-- It needs something that is not supported. -/
  | unsupported
  /-- An entry is encrypted. -/
  | encrypted
  /-- The data of an entry is not deflated data. -/
  | badData
  /-- The file ends inside an entry. -/
  | endOfFile
  /-- An entry starts before the file. -/
  | negativeOffset (n : Int)
  deriving DecidableEq, Repr

/-! ## Numbers and names -/

/-- A number in so many bytes, the lowest first. -/
def littleEndian (size n : Nat) : List UInt8 :=
  match size with
  | 0 => []
  | size + 1 => n.toUInt8 :: littleEndian size (n / 256)

/-- The number in bytes, the lowest first. -/
def number (bytes : List UInt8) : Nat := bytes.foldr (fun b n => 256 * n + b.toNat) 0

/-- A piece of bytes. -/
def piece (bytes : List UInt8) (start size : Nat) : List UInt8 := (bytes.drop start).take size

/-- The number at a place. -/
def numberAt (bytes : List UInt8) (start size : Nat) : Nat := number (piece bytes start size)

/-- The characters of the bytes from 128 on, in names that are not marked as UTF-8. -/
def highCharacters : Array Char :=
  ("ÇüéâäàåçêëèïîìÄÅÉæÆôöòûùÿÖÜ¢£¥₧ƒ" ++
    "áíóúñÑªº¿⌐¬½¼¡«»░▒▓│┤╡╢╖╕╣║╗╝╜╛┐" ++
    "└┴┬├─┼╞╟╚╔╩╦╠═╬╧╨╤╥╙╘╒╓╫╪┘┌█▄▌▐▀" ++
    "αßΓπΣσµτΦΘΩδ∞φε∩≡±≥≤⌠⌡÷≈°∙·√ⁿ²■\u00a0").toList.toArray

/-- The text of a name that is not marked as UTF-8. -/
def plainName (bytes : List UInt8) : String :=
  String.ofList (bytes.map fun b =>
    if b < 128 then Char.ofNat b.toNat else highCharacters[b.toNat - 128]?.getD ' ')

/-- The mark of a name in UTF-8. -/
def utf8Flag : Nat := 2048

/-- Whether a flag is set. -/
def hasFlag (flags flag : Nat) : Bool := flags / flag % 2 == 1

/-- The text of a name. -/
def nameOf? (flags : Nat) (bytes : List UInt8) : Option String :=
  if hasFlag flags utf8Flag then Text.ofUtf8? (ByteArray.mk bytes.toArray)
  else some (plainName bytes)

/-! ## Entries -/

/-- The time of an entry. -/
structure Stamp where
  year : Nat
  month : Nat
  day : Nat
  hour : Nat
  minute : Nat
  second : Nat
  deriving DecidableEq, Repr

/-- The start of the calendar of zip files. -/
def Stamp.epoch : Stamp := ⟨1980, 1, 1, 0, 0, 0⟩

/-- The date as a number. -/
def Stamp.date (s : Stamp) : Nat := (s.year - 1980) * 512 + s.month * 32 + s.day

/-- The time of day as a number. -/
def Stamp.time (s : Stamp) : Nat := s.hour * 2048 + s.minute * 32 + s.second / 2

/-- The time that two numbers write. -/
def Stamp.ofNumbers (date time : Nat) : Stamp :=
  ⟨date / 512 + 1980, date / 32 % 16, date % 32, time / 2048, time / 32 % 64, time % 32 * 2⟩

/-- An entry of the directory. -/
structure Entry where
  /-- The name as it is written. -/
  fullName : String
  flags : Nat
  /-- The way in which the data is held. -/
  method : Nat
  stamp : Stamp
  checksum : Nat
  compressedSize : Nat
  size : Nat
  /-- The rights of the file, in the upper half. -/
  attributes : Nat
  /-- Where the header of the entry starts. -/
  offset : Int
  deriving DecidableEq, Repr

/-- The name up to a NUL. -/
def Entry.name (e : Entry) : String :=
  String.ofList (e.fullName.toList.takeWhile (· != Char.ofNat 0))

/-- Whether the entry is a directory. -/
def Entry.isDirectory (e : Entry) : Bool := e.name.toList.getLast? == some '/'

/-- Whether the name is marked as UTF-8. -/
def Entry.isUtf8 (e : Entry) : Bool := hasFlag e.flags utf8Flag

/-- Data that is held as it is. -/
def stored : Nat := 0

/-- Data that is deflated. -/
def deflated : Nat := 8

/-! ## Writing -/

/-- The start of an entry. -/
def headerMark : List UInt8 := [0x50, 0x4B, 3, 4]

/-- The start of an entry of the directory. -/
def directoryMark : List UInt8 := [0x50, 0x4B, 1, 2]

/-- The start of the record at the end. -/
def endMark : List UInt8 := [0x50, 0x4B, 5, 6]

/-- The version that reading deflated data needs. -/
def version : Nat := 20

/-- The system whose rights the attributes hold. -/
def systemNumber : Nat := 3

/-- The rights of a file that all may read and its owner may write. -/
def fileAttributes : Nat := 0o644 * 65536

/-- A file to be written. -/
structure File where
  name : String
  bytes : List UInt8

/-- A name up to a NUL. -/
def shortName (name : String) : String :=
  String.ofList (name.toList.takeWhile (· != Char.ofNat 0))

/-- The name of a file up to a NUL. -/
def File.shortName (f : File) : String := Zip.shortName f.name

/-- The bytes of a name. -/
def nameBytes (name : String) : List UInt8 := (Text.bytes name).toList

/-- The flags that a name needs: only beyond ASCII it is marked. -/
def flagsOf (name : String) : Nat := if name.toList.all (·.toNat < 128) then 0 else utf8Flag

/-- The part that the header of an entry and its entry in the directory have in common. -/
def commonPart (f : File) : List UInt8 :=
  littleEndian 2 version ++ littleEndian 2 (flagsOf f.shortName) ++ littleEndian 2 deflated ++
    littleEndian 2 Stamp.epoch.time ++ littleEndian 2 Stamp.epoch.date ++
    littleEndian 4 (checksum f.bytes).toNat ++ littleEndian 4 (Deflate.store f.bytes).length ++
    littleEndian 4 f.bytes.length ++ littleEndian 2 (nameBytes f.shortName).length ++
    littleEndian 2 0

/-- An entry with its header. -/
def entryBytes (f : File) : List UInt8 :=
  headerMark ++ commonPart f ++ nameBytes f.shortName ++ Deflate.store f.bytes

/-- The entry of the directory for a file whose header starts at an offset. -/
def directoryEntry (f : File) (offset : Nat) : List UInt8 :=
  directoryMark ++ [version.toUInt8, systemNumber.toUInt8] ++ commonPart f ++ littleEndian 2 0 ++
    littleEndian 2 0 ++ littleEndian 2 0 ++ littleEndian 4 fileAttributes ++
    littleEndian 4 offset ++ nameBytes f.shortName

/-- The directory of files whose entries start at an offset. -/
def directoryBytes (offset : Nat) : List File → List UInt8
  | [] => []
  | f :: fs => directoryEntry f offset ++ directoryBytes (offset + (entryBytes f).length) fs

/-- The record at the end. -/
def endRecord (count size offset : Nat) : List UInt8 :=
  endMark ++ littleEndian 2 0 ++ littleEndian 2 0 ++ littleEndian 2 count ++
    littleEndian 2 count ++ littleEndian 4 size ++ littleEndian 4 offset ++ littleEndian 2 0

/-- The zip file of files. -/
def write (files : List File) : List UInt8 :=
  let entries := files.flatMap entryBytes
  let directory := directoryBytes 0 files
  entries ++ directory ++ endRecord files.length directory.length entries.length

/-! ## Reading -/

/-- The size of the record at the end, without a comment. -/
def endSize : Nat := 22

/-- The size of an entry of the directory, without its name and what follows it. -/
def directoryEntrySize : Nat := 46

/-- The size of the header of an entry, without its name and what follows it. -/
def headerSize : Nat := 30

/-- The longest comment. -/
def maxComment : Nat := 65536

/-- The last place where the mark stands, counted from a start. -/
def lastMark? (mark : List UInt8) (start : Nat) : List UInt8 → Option Nat
  | [] => none
  | b :: rest =>
    match lastMark? mark (start + 1) rest with
    | some n => some n
    | none => if mark.isPrefixOf (b :: rest) then some start else none

/-- Where the record at the end starts. -/
def endPlace? (bytes : List UInt8) : Option Nat :=
  let tail := bytes.length - endSize
  if bytes.length < endSize then none
  else if piece bytes tail 4 == endMark && numberAt bytes (tail + 20) 2 == 0 then some tail
  else
    let start := bytes.length - maxComment - endSize
    (lastMark? endMark start (bytes.drop start)).filter (· + endSize ≤ bytes.length)

/-- Whether further fields are whole: each says how long it is. -/
def fieldsAreWhole : Nat → List UInt8 → Bool
  | 0, _ => true
  | fuel + 1, bytes =>
    if bytes.length < 4 then true
    else
      let size := numberAt bytes 2 2
      size + 4 ≤ bytes.length && fieldsAreWhole fuel (bytes.drop (size + 4))

/-- The newest version that can be read. -/
def maxVersion : Nat := 63

/-- The entry that the bytes of the directory start with, and its size there. -/
def readEntry (bytes : List UInt8) (shift : Int) : Except ZipError (Entry × Nat) :=
  if bytes.length < directoryEntrySize || piece bytes 0 4 != directoryMark then .error .corrupt
  else
    let at' (start size : Nat) := numberAt bytes start size
    let nameSize := at' 28 2
    let extraSize := at' 30 2
    let flags := at' 8 2
    match nameOf? flags (piece bytes directoryEntrySize nameSize) with
    | none => .error .corrupt
    | some name =>
      if at' 6 2 % 256 > maxVersion then .error .unsupported
      else if !fieldsAreWhole extraSize (piece bytes (directoryEntrySize + nameSize) extraSize) then
        .error .corrupt
      else .ok (⟨name, flags, at' 10 2, .ofNumbers (at' 14 2) (at' 12 2), at' 16 4, at' 20 4,
        at' 24 4, at' 38 4, (at' 42 4 : Int) + shift⟩,
        directoryEntrySize + nameSize + extraSize + at' 32 2)

/-- The entries of the directory. -/
def readEntries (shift : Int) : Nat → List UInt8 → Except ZipError (List Entry)
  | 0, _ => .ok []
  | fuel + 1, bytes => do
    if bytes.isEmpty then return []
    else
      let (e, size) ← readEntry bytes shift
      return e :: (← readEntries shift fuel (bytes.drop size))

/-- The entries of a zip file. -/
def directory (bytes : List UInt8) : Except ZipError (List Entry) :=
  match endPlace? bytes with
  | none => .error .corrupt
  | some place =>
    let size := numberAt bytes (place + 12) 4
    let offset := numberAt bytes (place + 16) 4
    if place < size then .error .corrupt
    else
      readEntries ((place : Int) - size - offset) (size + 1) (piece bytes (place - size) size)

/-- Where the directory starts. -/
def directoryStart (bytes : List UInt8) : Nat :=
  match endPlace? bytes with
  | none => 0
  | some place => place - numberAt bytes (place + 12) 4

/-- Where the data of an entry has to end: at the next entry, or at the directory. Of entries with
one start the first is taken for the last. -/
def limit (bytes : List UInt8) (before after : List Entry) (e : Entry) : Int :=
  let later := (before.filter fun f => f.offset ≥ e.offset) ++
    after.filter fun f => f.offset > e.offset
  later.foldl (fun n f => min n f.offset) (directoryStart bytes)

/-- The bytes behind the header of an entry; the header must have the name of the entry, and the
data must end before a limit. -/
def dataOf (bytes : List UInt8) (e : Entry) (limit : Int) : Except ZipError (List UInt8) :=
  let header := bytes.drop e.offset.toNat
  let nameSize := numberAt header 26 2
  let dataStart := headerSize + nameSize + numberAt header 28 2
  if e.offset < 0 then .error (.negativeOffset e.offset)
  else if header.length < headerSize || piece header 0 4 != headerMark then .error .corrupt
  else if hasFlag e.flags 32 || hasFlag e.flags 64 then .error .unsupported
  else if nameOf? (numberAt header 6 2) (piece header headerSize nameSize) != some e.fullName then
    .error .corrupt
  else if e.offset + min dataStart header.length + e.compressedSize > limit then .error .corrupt
  else if hasFlag e.flags 1 then .error .encrypted
  else .ok ((header.drop dataStart).take e.compressedSize)

/-- The contents of an entry, which must have the checksum of the entry. -/
def contents (bytes : List UInt8) (e : Entry) (limit : Int) : Except ZipError (List UInt8) := do
  let data ← dataOf bytes e limit
  let out ←
    if e.method == stored then
      if data.length < min e.compressedSize e.size then .error .endOfFile else .ok data
    else if e.method == deflated then
      match Deflate.inflate data with
      | some out => .ok out
      | none => .error .badData
    else .error .unsupported
  let out := out.take e.size
  if (checksum out).toNat != e.checksum then .error .corrupt else return out

end Zip

end FormScaffold.Archive
