import FormScaffold.Archive.PrefixCode

/-!
# Deflated data

Deflated data is a sequence of blocks. A block holds bytes as they are, or words of two prefix
codes: one for bytes and for the lengths of copies, one for the distances of copies from the bytes
before. The codes are fixed or written in front of the block. Data that ends too early still gives
the bytes up to there.

Main definitions: `Deflate.inflate` and `Deflate.store`, which writes blocks of bytes as they are.
-/

namespace FormScaffold.Archive.Deflate

/-- The bits of bytes, the lowest of each byte first. -/
def bitsOf (bytes : List UInt8) : List Bool :=
  bytes.flatMap fun b => (List.range 8).map fun k => b.toNat.testBit k

/-- The number of bits, the lowest first. -/
def numberOf (bits : List Bool) : Nat := bits.foldr (fun b n => 2 * n + b.toNat) 0

/-- What is left to read, and the bytes so far. -/
structure Stream where
  bits : List Bool
  out : Array UInt8

/-- Why reading stops. -/
inductive Halt where
  /-- The data ends too early. -/
  | cut (out : Array UInt8)
  /-- The data is not deflated data. -/
  | invalid

/-- A reading of a stream. -/
abbrev Reading (α : Type) := StateT Stream (Except Halt) α

/-- Stops where the data ends. -/
def cut {α : Type} : Reading α := do throw (.cut (← get).out)

/-- Stops at what is not deflated data. -/
def invalid {α : Type} : Reading α := throw .invalid

/-- The next bits as a number. -/
def takeBits (n : Nat) : Reading Nat := do
  let s ← get
  let piece := s.bits.take n
  if piece.length < n then cut
  else
    set { s with bits := s.bits.drop n }
    return numberOf piece

/-- The next symbol of a code. -/
def takeSymbol (c : PrefixCode) : Reading Nat := do
  let s ← get
  match c.decode s.bits with
  | .symbol n bits =>
    set { s with bits }
    return n
  | .cut => cut
  | .invalid => invalid

/-- One more byte. -/
def emit (b : UInt8) : Reading Unit := modify fun s => { s with out := s.out.push b }

/-- Copies bytes from so far back, one after another, so that a copy may reach into itself. -/
def copyBack (distance : Nat) : Nat → Reading Unit
  | 0 => return
  | n + 1 => do
    let out := (← get).out
    emit (out[out.size - distance]?.getD 0)
    copyBack distance n

/-- The starts of a row of ranges, each with its number of further bits. -/
def ranges (start : Nat) : List Nat → List (Nat × Nat)
  | [] => []
  | bits :: rest => (start, bits) :: ranges (start + Nat.pow 2 bits) rest

/-- The lengths of copies by symbol. The last one is a single length of its own. -/
def lengthRanges : Array (Nat × Nat) :=
  (ranges 3 [0, 0, 0, 0, 0, 0, 0, 0, 1, 1, 1, 1, 2, 2, 2, 2, 3, 3, 3, 3, 4, 4, 4, 4, 5, 5, 5, 5] ++
    [(258, 0)]).toArray

/-- The distances of copies by symbol. -/
def distanceRanges : Array (Nat × Nat) :=
  (ranges 1 [0, 0, 0, 0, 1, 1, 2, 2, 3, 3, 4, 4, 5, 5, 6, 6, 7, 7, 8, 8, 9, 9, 10, 10, 11, 11, 12,
    12, 13, 13]).toArray

/-- The symbol that ends a block. -/
def endOfBlock : Nat := 256

/-- A number in the range of a symbol. -/
def takeRanged (rows : Array (Nat × Nat)) (symbol : Nat) : Reading Nat := do
  match rows[symbol]? with
  | none => invalid
  | some (start, bits) => return start + (← takeBits bits)

/-- The symbols of a block, up to its end. -/
def takeWords (words distances : PrefixCode) : Nat → Reading Unit
  | 0 => cut
  | fuel + 1 => do
    let symbol ← takeSymbol words
    if symbol == endOfBlock then return
    else
      if symbol < endOfBlock then emit symbol.toUInt8
      else
        let length ← takeRanged lengthRanges (symbol - 257)
        let distance ← takeRanged distanceRanges (← takeSymbol distances)
        if distance > (← get).out.size then invalid else copyBack distance length
      takeWords words distances fuel

/-- So many bytes as they are. -/
def takeBytes : Nat → Reading Unit
  | 0 => return
  | n + 1 => do
    emit (← takeBits 8).toUInt8
    takeBytes n

/-- A block of bytes as they are, which starts at a whole byte. -/
def takeStored : Reading Unit := do
  modify fun s => { s with bits := s.bits.drop (s.bits.length % 8) }
  let size ← takeBits 16
  if (← takeBits 16) != 65535 - size then invalid else takeBytes size

/-- The lengths of the fixed codes. -/
def fixedLengths : List Nat :=
  List.replicate 144 8 ++ List.replicate 112 9 ++ List.replicate 24 7 ++ List.replicate 8 8

/-- The order in which the lengths of the code of lengths are written. -/
def lengthOrder : List Nat := [16, 17, 18, 0, 8, 7, 9, 6, 10, 5, 11, 4, 12, 3, 13, 2, 14, 1, 15]

/-- A code, which must be one. -/
def codeOf (sparse : Bool) (lengths : List Nat) : Reading PrefixCode :=
  match PrefixCode.ofLengths? sparse lengths with
  | some c => return c
  | none => invalid

/-- So many lengths in the code of lengths, after those before; some symbols repeat a length. -/
def takeLengths (c : PrefixCode) (count : Nat) : Nat → Array Nat → Reading (Array Nat)
  | 0, lengths => return lengths
  | fuel + 1, lengths => do
    if lengths.size ≥ count then
      if lengths.size == count then return lengths else invalid
    else
      let more ← match ← takeSymbol c with
        | 16 => do
          match lengths.back? with
          | none => invalid
          | some l => pure (List.replicate (3 + (← takeBits 2)) l)
        | 17 => do pure (List.replicate (3 + (← takeBits 3)) 0)
        | 18 => do pure (List.replicate (11 + (← takeBits 7)) 0)
        | l => pure [l]
      takeLengths c count fuel (lengths ++ more)

/-- The most symbols of the two codes. -/
def maxWords : Nat := 286

/-- The most distances. -/
def maxDistances : Nat := 30

/-- The codes that are written in front of a block. -/
def takeCodes : Reading (PrefixCode × PrefixCode) := do
  let words := 257 + (← takeBits 5)
  let distances := 1 + (← takeBits 5)
  let count := 4 + (← takeBits 4)
  if words > maxWords || distances > maxDistances then invalid
  else
    let given ← (lengthOrder.take count).mapM fun k => do return (k, ← takeBits 3)
    let lengthCode ← codeOf false ((List.range 19).map fun k => (given.lookup k).getD 0)
    let lengths := (← takeLengths lengthCode (words + distances) (words + distances + 1) #[]).toList
    if (lengths[endOfBlock]?).getD 0 == 0 then invalid
    else return (← codeOf true (lengths.take words), ← codeOf true (lengths.drop words))

/-- The blocks, up to the last one. -/
def takeBlocks : Nat → Reading Unit
  | 0 => cut
  | fuel + 1 => do
    let last ← takeBits 1
    match ← takeBits 2 with
    | 0 => takeStored
    | 1 =>
      takeWords (← codeOf false fixedLengths) (← codeOf false (List.replicate 32 5))
        ((← get).bits.length + 1)
    | 2 =>
      let (words, distances) ← takeCodes
      takeWords words distances ((← get).bits.length + 1)
    | _ => invalid
    if last == 1 then return else takeBlocks fuel

/-- The bytes of deflated data, or none when it is something else. -/
def inflate (bytes : List UInt8) : Option (List UInt8) :=
  match takeBlocks (bytes.length + 1) ⟨bitsOf bytes, #[]⟩ with
  | .ok (_, s) => some s.out.toList
  | .error (.cut out) => some out.toList
  | .error .invalid => none

/-- The most bytes of a block that holds them as they are. -/
def maxStored : Nat := 65535

/-- A block of bytes as they are. -/
def storedBlock (last : Bool) (bytes : List UInt8) : List UInt8 :=
  let n := bytes.length
  [if last then 1 else 0, n.toUInt8, (n / 256).toUInt8, (65535 - n).toUInt8,
    ((65535 - n) / 256).toUInt8] ++ bytes

/-- Deflated data of at most so many blocks. -/
def storeBlocks : Nat → List UInt8 → List UInt8
  | 0, bytes => storedBlock true bytes
  | k + 1, bytes =>
    if bytes.length ≤ maxStored then storedBlock true bytes
    else storedBlock false (bytes.take maxStored) ++ storeBlocks k (bytes.drop maxStored)

/-- The last block holds all that is left. -/
theorem storeBlocks_zero (bytes : List UInt8) : storeBlocks 0 bytes = storedBlock true bytes := by
  rfl

/-- A block holds as much as it can, and the others hold the rest. -/
theorem storeBlocks_succ (k : Nat) (bytes : List UInt8) :
    storeBlocks (k + 1) bytes =
      if bytes.length ≤ maxStored then storedBlock true bytes
      else storedBlock false (bytes.take maxStored) ++ storeBlocks k (bytes.drop maxStored) := by
  rfl

/-- Deflated data that holds bytes as they are. -/
def store (bytes : List UInt8) : List UInt8 := storeBlocks (bytes.length / maxStored) bytes

example : inflate (store [1, 2, 3]) = some [1, 2, 3] := by decide +kernel

end FormScaffold.Archive.Deflate
