import FormScaffold.Archive.Deflate
import Mathlib.Tactic.Ring

/-! # Stored data read back

Data that is written in blocks of bytes as they are is read back, byte by byte.

* `numberOf_bitsOf` — bytes are read as the number that they write;
* `takeStored_append` — a block gives its bytes, and reading goes on behind it;
* **`inflate_store`** — what is stored is read back. -/

namespace FormScaffold.Archive.Deflate

/-! ## Bits -/

/-- No bytes are no bits. -/
@[simp] theorem bitsOf_nil : bitsOf [] = [] := rfl

/-- The bits of bytes one behind the other. -/
theorem bitsOf_append (xs ys : List UInt8) : bitsOf (xs ++ ys) = bitsOf xs ++ bitsOf ys :=
  List.flatMap_append

/-- The bits of the first byte come first. -/
theorem bitsOf_cons (b : UInt8) (bytes : List UInt8) :
    bitsOf (b :: bytes) = bitsOf [b] ++ bitsOf bytes :=
  bitsOf_append [b] bytes

/-- A byte has eight bits. -/
theorem length_bitsOf (bytes : List UInt8) : (bitsOf bytes).length = 8 * bytes.length := by
  induction bytes with
  | nil => rfl
  | cons b bytes ih =>
    rw [bitsOf_cons, List.length_append, ih, List.length_cons]
    show 8 + _ = _
    omega

/-- Bits behind others count for their number times the power of two that the others reach. -/
theorem numberOf_append (xs ys : List Bool) :
    numberOf (xs ++ ys) = numberOf xs + 2 ^ xs.length * numberOf ys := by
  induction xs with
  | nil => simp [numberOf]
  | cons b xs ih =>
    show 2 * numberOf (xs ++ ys) + b.toNat = 2 * numberOf xs + b.toNat + _
    rw [ih, List.length_cons, Nat.pow_succ]
    ring

/-- A number is that of its bits. -/
theorem numberOf_testBits (size n : Nat) :
    numberOf ((List.range size).map n.testBit) = n % 2 ^ size := by
  induction size generalizing n with
  | zero => simp [numberOf, Nat.mod_one]
  | succ size ih =>
    have hshift : (List.range (size + 1)).map n.testBit =
        n.testBit 0 :: (List.range size).map (n / 2).testBit := by
      rw [List.range_succ_eq_map, List.map_cons, List.map_map]
      congr 1
      refine List.map_congr_left fun k _ => ?_
      exact Nat.testBit_succ n k
    rw [hshift]
    show 2 * numberOf _ + (n.testBit 0).toNat = _
    have hlow : (n.testBit 0).toNat = n % 2 := by
      rw [Nat.testBit_zero]
      rcases Nat.mod_two_eq_zero_or_one n with h | h <;> simp [h]
    rw [ih, hlow, Nat.pow_succ', Nat.mod_mul]
    omega

/-- The bits of a byte are read back as the byte. -/
theorem numberOf_bitsOf_singleton (b : UInt8) : numberOf (bitsOf [b]) = b.toNat := by
  show numberOf ((List.range 8).map b.toNat.testBit ++ []) = _
  rw [List.append_nil, numberOf_testBits]
  exact Nat.mod_eq_of_lt b.toNat_lt

/-- Two bytes are read as the number that they write, the lower byte first. -/
theorem numberOf_bitsOf_pair (low high : UInt8) :
    numberOf (bitsOf [low, high]) = low.toNat + 256 * high.toNat := by
  rw [bitsOf_cons, numberOf_append, numberOf_bitsOf_singleton, numberOf_bitsOf_singleton,
    length_bitsOf]
  rfl

/-! ## Reading -/

/-- A step that succeeds is followed by the next. -/
theorem bind_of_ok {α β : Type} {x : Reading α} {f : α → Reading β} {s t : Stream} {a : α}
    (h : x s = .ok (a, t)) : (x >>= f) s = f a t := by
  show (x s >>= fun p => f p.1 p.2) = f a t
  rw [h]
  rfl

/-- Bits that stand in front are taken as their number. -/
theorem takeBits_append (bits rest : List Bool) (out : Array UInt8) {n : Nat}
    (h : bits.length = n) :
    takeBits n ⟨bits ++ rest, out⟩ = .ok (numberOf bits, ⟨rest, out⟩) := by
  have htake : (bits ++ rest).take n = bits := by rw [← h, List.take_left]
  have hdrop : (bits ++ rest).drop n = rest := by rw [← h, List.drop_left]
  show (if ((bits ++ rest).take n).length < n then cut else _) _ = _
  rw [htake, if_neg (by omega)]
  show Except.ok (numberOf bits, (⟨(bits ++ rest).drop n, out⟩ : Stream)) = _
  rw [hdrop]

/-- Bytes that stand in front are taken as they are. -/
theorem takeBytes_append (bytes : List UInt8) (rest : List Bool) (out : Array UInt8) :
    takeBytes bytes.length ⟨bitsOf bytes ++ rest, out⟩ = .ok ((), ⟨rest, out ++ bytes⟩) := by
  induction bytes generalizing out with
  | nil => rfl
  | cons b bytes ih =>
    rw [bitsOf_cons, List.append_assoc, List.length_cons, takeBytes,
      bind_of_ok (takeBits_append (n := 8) _ _ _ (length_bitsOf [b])), numberOf_bitsOf_singleton]
    show takeBytes bytes.length ⟨bitsOf bytes ++ rest, out.push b.toNat.toUInt8⟩ = _
    rw [ih, show b.toNat.toUInt8 = b from UInt8.ofNat_toNat]
    simp

/-! ## Blocks -/

/-- The start of a block of bytes as they are: the mark of the last block, and the size twice, the
second time as its complement. -/
theorem storedBlock_eq (last : Bool) (bytes : List UInt8) :
    storedBlock last bytes = [if last then 1 else 0] ++
      ([bytes.length.toUInt8, (bytes.length / 256).toUInt8] ++
        ([(65535 - bytes.length).toUInt8, ((65535 - bytes.length) / 256).toUInt8] ++ bytes)) := rfl

/-- A size below the bound is read as it was written. -/
theorem numberOf_size {n : Nat} (h : n < 65536) :
    numberOf (bitsOf [n.toUInt8, (n / 256).toUInt8]) = n := by
  rw [numberOf_bitsOf_pair]
  show n % 256 + 256 * (n / 256 % 256) = n
  omega

/-- A block of bytes as they are is taken up to its end; the bits before its size fill a byte. -/
theorem takeStored_append {bytes : List UInt8} (hsize : bytes.length ≤ maxStored)
    (more : List UInt8) (out : Array UInt8) :
    takeStored ⟨List.replicate 5 false ++ bitsOf ([bytes.length.toUInt8,
      (bytes.length / 256).toUInt8] ++ ([(65535 - bytes.length).toUInt8,
      ((65535 - bytes.length) / 256).toUInt8] ++ (bytes ++ more))), out⟩ =
      .ok ((), ⟨bitsOf more, out ++ bytes⟩) := by
  unfold maxStored at hsize
  -- Behind the three bits of the header five are skipped, and then whole bytes are left.
  have hfill : ∀ cs : List UInt8, (List.replicate 5 false ++ bitsOf cs).drop
      ((List.replicate 5 false ++ bitsOf cs).length % 8) = bitsOf cs := by
    intro cs
    have hlength : (List.replicate 5 false ++ bitsOf cs).length % 8 =
        (List.replicate 5 false).length := by
      rw [List.length_append, length_bitsOf, List.length_replicate]
      omega
    rw [hlength, List.drop_left]
  have hmodify : ∀ cs : List UInt8, (modify fun s : Stream =>
      { s with bits := s.bits.drop (s.bits.length % 8) } : Reading Unit)
      ⟨List.replicate 5 false ++ bitsOf cs, out⟩ = .ok ((), ⟨bitsOf cs, out⟩) := by
    intro cs
    show Except.ok ((), (⟨_, out⟩ : Stream)) = _
    rw [hfill]
  -- The size and its complement, of sixteen bits each, and then the bytes.
  rw [takeStored, bind_of_ok (hmodify _), bitsOf_append,
    bind_of_ok (takeBits_append (n := 16) _ _ _ (length_bitsOf [_, _])),
    numberOf_size (by omega), bitsOf_append,
    bind_of_ok (takeBits_append (n := 16) _ _ _ (length_bitsOf [_, _])),
    numberOf_size (by omega), if_neg (by simp), bitsOf_append, takeBytes_append]

/-- A block of bytes as they are, with its start: reading goes on behind it unless it is the last.
-/
theorem takeBlocks_storedBlock (last : Bool) {bytes : List UInt8}
    (hsize : bytes.length ≤ maxStored) (more : List UInt8) (out : Array UInt8) (fuel : Nat) :
    takeBlocks (fuel + 1) ⟨bitsOf (storedBlock last bytes ++ more), out⟩ =
      if last then .ok ((), ⟨bitsOf more, out ++ bytes⟩)
      else takeBlocks fuel ⟨bitsOf more, out ++ bytes⟩ := by
  have hstart : bitsOf [if last then 1 else 0] =
      [last] ++ ([false, false] ++ List.replicate 5 false) := by
    cases last <;> decide
  rw [storedBlock_eq, List.append_assoc, List.append_assoc, List.append_assoc, bitsOf_append,
    hstart,
    List.append_assoc, List.append_assoc, takeBlocks,
    bind_of_ok (takeBits_append (n := 1) [last] _ _ rfl),
    bind_of_ok (takeBits_append (n := 2) [false, false] _ _ rfl)]
  show (takeStored >>= fun _ => _) _ = _
  rw [bind_of_ok (takeStored_append hsize more out)]
  cases last <;> rfl

/-- The bytes are taken block by block. -/
theorem takeBlocks_storeBlocks (k : Nat) {bytes : List UInt8}
    (hsize : bytes.length < (k + 1) * maxStored) (out : Array UInt8) {fuel : Nat}
    (hfuel : k < fuel) :
    takeBlocks fuel ⟨bitsOf (storeBlocks k bytes), out⟩ = .ok ((), ⟨[], out ++ bytes⟩) := by
  -- A last block ends the reading.
  have hlast : ∀ {bytes : List UInt8} {out : Array UInt8} {fuel : Nat},
      bytes.length ≤ maxStored → takeBlocks (fuel + 1) ⟨bitsOf (storedBlock true bytes), out⟩ =
        .ok ((), ⟨[], out ++ bytes⟩) := by
    intro bytes out fuel hle
    have hblock := takeBlocks_storedBlock true hle [] out fuel
    rwa [List.append_nil] at hblock
  induction k generalizing bytes out fuel with
  | zero =>
    obtain ⟨fuel, rfl⟩ : ∃ n, fuel = n + 1 := ⟨fuel - 1, by omega⟩
    exact hlast (by omega)
  | succ k ih =>
    obtain ⟨fuel, rfl⟩ : ∃ n, fuel = n + 1 := ⟨fuel - 1, by omega⟩
    rw [storeBlocks_succ]
    split
    · rename_i hle
      exact hlast hle
    · -- A full block is taken, and the rest by induction.
      rename_i hlong
      have htake : (bytes.take maxStored).length ≤ maxStored := List.length_take_le _ _
      have hdrop : (bytes.drop maxStored).length < (k + 1) * maxStored := by
        rw [List.length_drop]
        unfold maxStored at hsize ⊢
        omega
      rw [takeBlocks_storedBlock false htake, if_neg Bool.false_ne_true,
        ih hdrop _ (by omega)]
      have hall : out ++ bytes.take maxStored ++ bytes.drop maxStored = out ++ bytes := by
        rw [← Array.toList_inj]
        simp
      rw [hall]

/-- Storing never makes bytes shorter. -/
theorem length_le_storeBlocks (k : Nat) (bytes : List UInt8) :
    bytes.length ≤ (storeBlocks k bytes).length := by
  induction k generalizing bytes with
  | zero =>
    rw [storeBlocks_zero, storedBlock, List.length_append]
    omega
  | succ k ih =>
    have hrest := ih (bytes.drop maxStored)
    rw [storeBlocks_succ]
    split
    · rw [storedBlock, List.length_append]
      omega
    · rw [List.length_drop] at hrest
      rw [List.length_append, storedBlock, List.length_append, List.length_take]
      omega

/-- Storing adds five bytes for each block. -/
theorem length_storeBlocks_le (k : Nat) (bytes : List UInt8) :
    (storeBlocks k bytes).length ≤ bytes.length + 5 * (k + 1) := by
  have hblock : ∀ (last : Bool) (bytes : List UInt8),
      (storedBlock last bytes).length = bytes.length + 5 := by
    intro last bytes
    rw [storedBlock, List.length_append, Nat.add_comm]
    rfl
  induction k generalizing bytes with
  | zero => exact (hblock true bytes).le
  | succ k ih =>
    have hrest := ih (bytes.drop maxStored)
    rw [storeBlocks_succ]
    split
    · rw [hblock]
      omega
    · rw [List.length_drop] at hrest
      rw [List.length_append, hblock, List.length_take]
      omega

/-- Storing adds little to the bytes. -/
theorem length_store_le (bytes : List UInt8) : (store bytes).length ≤ 6 * bytes.length + 5 := by
  have hle := length_storeBlocks_le (bytes.length / maxStored) bytes
  have hdiv := Nat.div_le_self bytes.length maxStored
  unfold store
  omega

/-- **What is stored is read back.** The blocks of the store are not compressed; each says whether
it is the last one, and how many bytes it holds, twice over. -/
theorem inflate_store (bytes : List UInt8) : inflate (store bytes) = some bytes := by
  have hsize : bytes.length < (bytes.length / maxStored + 1) * maxStored := by
    unfold maxStored
    omega
  -- There are no more blocks than bytes, so that the fuel is enough.
  have hfuel : bytes.length / maxStored < (store bytes).length + 1 := by
    have hle : bytes.length ≤ (store bytes).length := length_le_storeBlocks _ _
    have hdiv := Nat.div_le_self bytes.length maxStored
    omega
  have hblocks := takeBlocks_storeBlocks _ hsize #[] hfuel
  rw [inflate, show takeBlocks _ ⟨bitsOf (store bytes), #[]⟩ = _ from hblocks]
  simp

end FormScaffold.Archive.Deflate
