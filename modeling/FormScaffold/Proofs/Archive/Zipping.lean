import FormScaffold.Archive.Zip
import FormScaffold.Proofs.Archive.Inflating
import FormScaffold.Proofs.Text.CodePoints

/-! # Zip files read back

A zip file is written so that what reads it finds each entry where the directory says: the sizes of
what is written before an entry add up to its offset. Numbers come back as long as they fit into
their fields.

* `nameOf?_nameBytes` — a name is read as it was written, marked as UTF-8 or not;
* `readEntry_directoryEntry` — an entry of the directory is read as it was written;
* `contents_entryBytes` — so is the data of an entry;
* **`Keeps`** — names and bytes come back from a zip file;
* **`keeps_of_fits`** — they do when names and size fit. -/

namespace FormScaffold.Archive.Zip

/-! ## Numbers -/

/-- A number takes as many bytes as it is given. -/
@[simp] theorem length_littleEndian (size n : Nat) : (littleEndian size n).length = size := by
  induction size generalizing n with
  | zero => rfl
  | succ size ih => rw [littleEndian, List.length_cons, ih]

/-- A number that fits is read as it was written. -/
theorem number_littleEndian {size n : Nat} (h : n < 256 ^ size) :
    number (littleEndian size n) = n := by
  induction size generalizing n with
  | zero => exact (Nat.lt_one_iff.1 h).symm
  | succ size ih =>
    rw [Nat.pow_succ] at h
    show 256 * number (littleEndian size (n / 256)) + n % 256 = n
    rw [ih (Nat.div_lt_of_lt_mul (by omega))]
    omega

/-- A piece that starts behind bytes of a known number is one of what follows them. -/
theorem piece_append (xs : List UInt8) {k start : Nat} (hxs : xs.length = k) (h : k ≤ start)
    (ys : List UInt8) (size : Nat) : piece (xs ++ ys) start size = piece ys (start - k) size := by
  subst hxs
  rw [piece, piece, List.drop_append, List.drop_eq_nil_of_le h, List.nil_append]

/-- The piece in front. -/
theorem piece_zero {xs : List UInt8} {size : Nat} (h : xs.length = size) (ys : List UInt8) :
    piece (xs ++ ys) 0 size = xs := by
  rw [piece, List.drop_zero, ← h, List.take_left]

/-- A number in front is skipped. -/
theorem piece_skip {k start : Nat} (h : k ≤ start) (n : Nat) (ys : List UInt8) (size : Nat) :
    piece (littleEndian k n ++ ys) start size = piece ys (start - k) size :=
  piece_append _ (length_littleEndian k n) h ys size

/-- The bytes of a number, cut out where they stand first. -/
theorem piece_littleEndian (size n : Nat) (ys : List UInt8) :
    piece (littleEndian size n ++ ys) 0 size = littleEndian size n :=
  piece_zero (length_littleEndian size n) ys

/-! ## Names -/

/-- The bytes of an array, as a list. -/
theorem toList_eq_data (bytes : ByteArray) : bytes.toList = bytes.data.toList := by
  have hloop : ∀ (i : Nat) (out : List UInt8),
      ByteArray.toList.loop bytes i out = out.reverse ++ bytes.data.toList.drop i := by
    intro i out
    fun_induction ByteArray.toList.loop bytes i out with
    | case1 i out hi ih =>
      have hlength : i < bytes.data.toList.length := hi
      have hget : bytes.get! i = bytes.data.toList[i] := getElem!_pos bytes.data i hi
      rw [ih, List.drop_eq_getElem_cons hlength, hget, List.reverse_cons, List.append_assoc,
        List.singleton_append]
    | case2 i out hi =>
      rw [List.drop_eq_nil_of_le (Nat.not_lt.1 hi), List.append_nil]
  exact hloop 0 []

/-- The bytes of a text are those of the characters that it spells. -/
theorem nameBytes_eq {name : String} {ds : List Char} (h : Text.plain? name.toList = some ds) :
    nameBytes name = ds.flatMap String.utf8EncodeChar := by
  have hbytes : Text.bytes name = (String.ofList ds).toByteArray := by
    rw [Text.bytes, Text.utf8?, h]
    rfl
  rw [nameBytes, hbytes, toList_eq_data, ← String.utf8Encode_toList, List.utf8Encode,
    List.data_toByteArray, String.toList_ofList]

/-- A character takes at most four bytes. -/
theorem length_nameBytes_le (name : String) :
    (nameBytes name).length ≤ 4 * name.toList.length := by
  have hchars : ∀ ds : List Char, (ds.flatMap String.utf8EncodeChar).length ≤ 4 * ds.length := by
    intro ds
    induction ds with
    | nil => exact Nat.le_refl 0
    | cons c cs ih =>
      rw [List.flatMap_cons, List.length_append, String.length_utf8EncodeChar, List.length_cons]
      have hsize := Char.utf8Size_le_four c
      omega
  cases hplain : Text.plain? name.toList with
  | none =>
    have hnone : Text.isPaired name = false := by rw [Text.isPaired, hplain]; rfl
    rw [nameBytes, Text.bytes_of_not_isPaired hnone, toList_eq_data]
    exact Nat.zero_le _
  | some ds =>
    have hlength := Text.length_le_length_spelled ds
    rw [← Text.plain?_eq_some_iff.1 hplain] at hlength
    rw [nameBytes_eq hplain]
    exact Nat.le_trans (hchars ds) (Nat.mul_le_mul_left 4 hlength)

/-- The bytes of a text are read as the text. -/
theorem ofUtf8?_nameBytes {name : String} (h : Text.isPaired name = true) :
    Text.ofUtf8? (ByteArray.mk (nameBytes name).toArray) = some name := by
  rw [nameBytes, toList_eq_data]
  exact Text.ofUtf8?_bytes h

/-- A text of ASCII characters is read byte by byte. -/
theorem plainName_nameBytes {name : String} (h : ∀ c ∈ name.toList, c.toNat < 128) :
    plainName (nameBytes name) = name := by
  have hchars : ∀ {cs : List Char}, (∀ c ∈ cs, c.toNat < 128) →
      (cs.flatMap String.utf8EncodeChar).map (fun b => if b < 128 then Char.ofNat b.toNat
        else highCharacters[b.toNat - 128]?.getD ' ') = cs := by
    intro cs hcs
    induction cs with
    | nil => rfl
    | cons c cs ih =>
      have hc : c.toNat < 128 := hcs c List.mem_cons_self
      have hbyte : c.toNat.toUInt8.toNat = c.toNat := by
        show c.toNat % 256 = _
        omega
      have hlow : c.toNat.toUInt8 < 128 := by
        show c.toNat.toUInt8.toNat < 128
        omega
      have hencode : String.utf8EncodeChar c = [c.toNat.toUInt8] :=
        if_pos (show c.toNat ≤ 127 by omega)
      rw [List.flatMap_cons, hencode, List.singleton_append, List.map_cons,
        ih fun d hd => hcs d (List.mem_cons_of_mem _ hd), if_pos hlow, hbyte, Char.ofNat_toNat]
  -- The mark is beyond ASCII, so that the name spells itself.
  have hplain : Text.plain? name.toList = some name.toList :=
    Text.plain?_eq_some_iff.2
      (Text.spelled_eq_self fun hmark => absurd (h _ hmark) (by decide)).symm
  rw [nameBytes_eq hplain, plainName, hchars h, String.ofList_toList]

/-- A name is read as it was written, whichever way its flags tell. -/
theorem nameOf?_nameBytes {name : String} (h : Text.isPaired name = true) :
    nameOf? (flagsOf name) (nameBytes name) = some name := by
  unfold nameOf? flagsOf
  split_ifs with hascii hflag hflag
  · exact absurd hflag (by decide)
  · exact congrArg some (plainName_nameBytes (by simpa using hascii))
  · exact ofUtf8?_nameBytes h
  · exact absurd (by decide) hflag

/-- The flags of an entry say at most that its name is in UTF-8. -/
theorem flagsOf_cases (name : String) : flagsOf name = 0 ∨ flagsOf name = utf8Flag := by
  unfold flagsOf
  split
  · exact .inl rfl
  · exact .inr rfl

/-! ## Entries of the directory -/

/-- The entry that stands in the directory for a file whose header starts at an offset. -/
def Entry.of (f : File) (offset : Nat) : Entry where
  fullName := f.shortName
  flags := flagsOf f.shortName
  method := deflated
  stamp := .epoch
  checksum := (Archive.checksum f.bytes).toNat
  compressedSize := (Deflate.store f.bytes).length
  size := f.bytes.length
  attributes := fileAttributes
  offset := offset

/-- A file with a name that has bytes, whose numbers fit into their fields. -/
structure File.Fits (f : File) : Prop where
  paired : Text.isPaired f.shortName = true
  name : (nameBytes f.shortName).length < 256 ^ 2
  data : (Deflate.store f.bytes).length < 256 ^ 4

/-- The bytes of a file that fits can be counted in four bytes. -/
theorem File.Fits.size {f : File} (h : f.Fits) : f.bytes.length < 256 ^ 4 :=
  (Deflate.length_le_storeBlocks _ f.bytes).trans_lt h.data

/-- An entry of the directory is as long as its fixed part and the name. -/
theorem length_directoryEntry (f : File) (offset : Nat) :
    (directoryEntry f offset).length = directoryEntrySize + (nameBytes f.shortName).length := by
  simp only [directoryEntry, commonPart, List.length_append, length_littleEndian]
  rfl

/-- An entry is as long as its header, its name and its stored bytes. -/
theorem length_entryBytes (f : File) : (entryBytes f).length =
    headerSize + (nameBytes f.shortName).length + (Deflate.store f.bytes).length := by
  simp only [entryBytes, commonPart, List.length_append, length_littleEndian]
  rfl

/-- What stands in front of what follows an entry of the directory. -/
theorem directoryEntry_append (f : File) (offset : Nat) (rest : List UInt8) :
    directoryEntry f offset ++ rest = directoryMark ++
      ([version.toUInt8, systemNumber.toUInt8] ++ (littleEndian 2 version ++
      (littleEndian 2 (flagsOf f.shortName) ++ (littleEndian 2 deflated ++
      (littleEndian 2 Stamp.epoch.time ++ (littleEndian 2 Stamp.epoch.date ++
      (littleEndian 4 (checksum f.bytes).toNat ++
      (littleEndian 4 (Deflate.store f.bytes).length ++ (littleEndian 4 f.bytes.length ++
      (littleEndian 2 (nameBytes f.shortName).length ++ (littleEndian 2 0 ++ (littleEndian 2 0 ++
      (littleEndian 2 0 ++ (littleEndian 2 0 ++ (littleEndian 4 fileAttributes ++
      (littleEndian 4 offset ++ (nameBytes f.shortName ++ rest))))))))))))))))) := by
  simp only [directoryEntry, commonPart, List.append_assoc]

/-- An entry of the directory is read as it was written. -/
theorem readEntry_directoryEntry {f : File} (hf : f.Fits) {offset : Nat}
    (hoffset : offset < 256 ^ 4) (rest : List UInt8) :
    readEntry (directoryEntry f offset ++ rest) 0 =
      .ok (Entry.of f offset, (directoryEntry f offset).length) := by
  have hmark := fun {start : Nat} (h : 4 ≤ start) =>
    piece_append directoryMark (k := 4) rfl h
  have hsystem := fun {start : Nat} (h : 2 ≤ start) =>
    piece_append [version.toUInt8, systemNumber.toUInt8] (k := 2) rfl h
  have hflags : flagsOf f.shortName < 256 ^ 2 := by
    rcases flagsOf_cases f.shortName with h | h <;> rw [h] <;> decide
  have hchecksum : (checksum f.bytes).toNat < 256 ^ 4 := (checksum f.bytes).toNat_lt
  -- The entry is long enough, and starts with its mark.
  have hwhole : ¬(decide ((directoryEntry f offset ++ rest).length < directoryEntrySize) ||
      piece (directoryEntry f offset ++ rest) 0 4 != directoryMark) = true := by
    have hstart : piece (directoryEntry f offset ++ rest) 0 4 = directoryMark := by
      rw [directoryEntry_append]
      exact piece_zero rfl _
    rw [hstart, List.length_append, length_directoryEntry]
    simp
    omega
  -- Each field is reached by skipping those in front of it, and fits.
  rw [length_directoryEntry, readEntry, if_neg hwhole]
  simp (disch := decide) only [numberAt, directoryEntry_append, directoryEntrySize, piece_skip,
    hmark, hsystem, Nat.reduceSub, piece_littleEndian, number_littleEndian,
    number_littleEndian hflags, number_littleEndian hchecksum,
    number_littleEndian hf.name, number_littleEndian hf.data, number_littleEndian hf.size,
    number_littleEndian hoffset, piece_zero rfl, nameOf?_nameBytes hf.paired]
  rfl

/-! ## The directory -/

/-- The entries of files that are written one after another from an offset on. -/
def entriesOf (offset : Nat) : List File → List Entry
  | [] => []
  | f :: fs => .of f offset :: entriesOf (offset + (entryBytes f).length) fs

/-- The directory is read entry by entry. -/
theorem readEntries_directoryBytes {files : List File} (hfiles : ∀ f ∈ files, f.Fits) {offset : Nat}
    (hend : offset + (files.flatMap entryBytes).length < 256 ^ 4) {fuel : Nat}
    (hfuel : (directoryBytes offset files).length < fuel) :
    readEntries 0 fuel (directoryBytes offset files) = .ok (entriesOf offset files) := by
  induction files generalizing offset fuel with
  | nil =>
    obtain ⟨fuel, rfl⟩ : ∃ n, fuel = n + 1 := ⟨fuel - 1, by omega⟩
    rfl
  | cons f fs ih =>
    obtain ⟨fuel, rfl⟩ : ∃ n, fuel = n + 1 := ⟨fuel - 1, by omega⟩
    have hlength := length_directoryEntry f offset
    unfold directoryEntrySize at hlength
    rw [List.flatMap_cons, List.length_append] at hend
    rw [directoryBytes, List.length_append] at hfuel
    -- The mark of the next entry stands there, so that the directory is not at its end.
    have hmore : (directoryEntry f offset ++
        directoryBytes (offset + (entryBytes f).length) fs).isEmpty = false := by
      rw [List.isEmpty_eq_false_iff_exists_mem]
      exact ⟨0x50, List.mem_append_left _ (by simp [directoryEntry, directoryMark])⟩
    have hrest : readEntries 0 fuel (directoryBytes (offset + (entryBytes f).length) fs) =
        .ok (entriesOf (offset + (entryBytes f).length) fs) :=
      ih (fun g hg => hfiles g (List.mem_cons_of_mem _ hg)) (by omega) (by omega)
    rw [directoryBytes, readEntries, hmore, if_neg Bool.false_ne_true,
      readEntry_directoryEntry (hfiles f List.mem_cons_self) (by omega)]
    show (readEntries 0 fuel ((directoryEntry f offset ++ _).drop _) >>= _) = _
    rw [List.drop_left, hrest]
    rfl

/-- The record at the end is found where it was written. -/
theorem endPlace?_append (xs : List UInt8) (count size offset : Nat) :
    endPlace? (xs ++ endRecord count size offset) = some xs.length := by
  have hmark := fun {start : Nat} (h : 4 ≤ start) => piece_append endMark (k := 4) rfl h
  have hlength : (xs ++ endRecord count size offset).length = xs.length + endSize := by
    simp only [endRecord, List.length_append, length_littleEndian]
    rfl
  have hstart : piece (xs ++ endRecord count size offset) xs.length 4 = endMark := by
    rw [piece_append _ rfl le_rfl, Nat.sub_self]
    simp only [endRecord, List.append_assoc]
    exact piece_zero rfl _
  have hcomment : numberAt (xs ++ endRecord count size offset) (xs.length + 20) 2 = 0 := by
    rw [numberAt, piece_append _ rfl (Nat.le_add_right _ _), Nat.add_sub_cancel_left]
    simp (disch := decide) only [endRecord, List.append_assoc, hmark, piece_skip, Nat.reduceSub]
    rfl
  rw [endPlace?, hlength, Nat.add_sub_cancel, hstart, hcomment]
  simp

/-- The record at the end says the size of the directory and its offset. -/
theorem numberAt_endRecord (xs : List UInt8) (count : Nat) {size offset : Nat}
    (hsize : size < 256 ^ 4) (hoffset : offset < 256 ^ 4) :
    numberAt (xs ++ endRecord count size offset) (xs.length + 12) 4 = size ∧
      numberAt (xs ++ endRecord count size offset) (xs.length + 16) 4 = offset := by
  have hmark := fun {start : Nat} (h : 4 ≤ start) => piece_append endMark (k := 4) rfl h
  constructor <;>
  · rw [numberAt, piece_append _ rfl (Nat.le_add_right _ _), Nat.add_sub_cancel_left]
    simp (disch := decide) only [endRecord, List.append_assoc, hmark, piece_skip, Nat.reduceSub,
      piece_littleEndian, number_littleEndian hsize, number_littleEndian hoffset]

/-- The parts of a zip file. -/
theorem write_eq (files : List File) : write files =
    files.flatMap entryBytes ++ directoryBytes 0 files ++
      endRecord files.length (directoryBytes 0 files).length
        (files.flatMap entryBytes).length := rfl

section
variable {files : List File} (hfiles : ∀ f ∈ files, f.Fits) (hsize : (write files).length < 256 ^ 4)
include hfiles hsize

/-- **The directory of a written archive lists its files**, in order and with their offsets. A
reader that starts from the end of the archive finds the directory by the record there, and each
entry by its offset. -/
theorem directory_write : directory (write files) = .ok (entriesOf 0 files) := by
  rw [write_eq, List.length_append, List.length_append] at hsize
  have hdirectory : (directoryBytes 0 files).length < 256 ^ 4 := by omega
  have hentries : (files.flatMap entryBytes).length < 256 ^ 4 := by omega
  obtain ⟨hn, ho⟩ := numberAt_endRecord (files.flatMap entryBytes ++ directoryBytes 0 files)
    files.length hdirectory hentries
  -- Nothing stands in front of the archive, so that offsets need no correction.
  have hshift : (((files.flatMap entryBytes ++ directoryBytes 0 files).length : Nat) : Int) -
      (directoryBytes 0 files).length - (files.flatMap entryBytes).length = 0 := by
    rw [List.length_append]
    omega
  have hpiece : piece (write files) ((files.flatMap entryBytes ++ directoryBytes 0 files).length -
      (directoryBytes 0 files).length) (directoryBytes 0 files).length =
      directoryBytes 0 files := by
    rw [write_eq, List.append_assoc, List.length_append, Nat.add_sub_cancel,
      piece_append _ rfl le_rfl, Nat.sub_self, piece_zero rfl]
  rw [directory, write_eq, endPlace?_append]
  simp only [hn, ho, hshift]
  rw [if_neg (by rw [List.length_append]; omega), ← write_eq, hpiece]
  exact readEntries_directoryBytes hfiles (by omega) (Nat.lt_succ_self _)

omit hfiles in
/-- The directory stands behind all entries. -/
theorem directoryStart_write :
    directoryStart (write files) = (files.flatMap entryBytes).length := by
  rw [write_eq, List.length_append, List.length_append] at hsize
  have hdirectory : (directoryBytes 0 files).length < 256 ^ 4 := by omega
  have hentries : (files.flatMap entryBytes).length < 256 ^ 4 := by omega
  obtain ⟨hn, -⟩ := numberAt_endRecord (files.flatMap entryBytes ++ directoryBytes 0 files)
    files.length hdirectory hentries
  rw [directoryStart, write_eq, endPlace?_append]
  show _ - numberAt _ _ 4 = _
  rw [hn, List.length_append, Nat.add_sub_cancel]

end

/-! ## Data -/

/-- The data of an entry ends before every entry behind it, and before the directory. -/
theorem le_limit {bytes : List UInt8} {before after : List Entry} {e : Entry} {n : Int}
    (hbefore : ∀ f ∈ before, f.offset < e.offset) (hafter : ∀ f ∈ after, n ≤ f.offset)
    (hstart : n ≤ directoryStart bytes) : n ≤ limit bytes before after e := by
  have hfold : ∀ {later : List Entry} {m : Int}, n ≤ m → (∀ f ∈ later, n ≤ f.offset) →
      n ≤ later.foldl (fun m f => min m f.offset) m := by
    intro later
    induction later with
    | nil => exact fun hm _ => hm
    | cons f later ih =>
      intro m hm hlater
      exact ih (le_min hm (hlater f List.mem_cons_self))
        fun g hg => hlater g (List.mem_cons_of_mem _ hg)
  refine hfold hstart fun f hf => ?_
  -- Among the entries in front only those with a later offset would count, and there is none.
  rcases List.mem_append.1 hf with hf | hf
  · obtain ⟨hf, hlate⟩ := List.mem_filter.1 hf
    exact absurd (of_decide_eq_true hlate) (not_le.2 (hbefore f hf))
  · exact hafter f (List.mem_filter.1 hf).1

/-- What stands in front of what follows the header of an entry. -/
theorem entryBytes_append (f : File) (rest : List UInt8) :
    entryBytes f ++ rest = headerMark ++
      (littleEndian 2 version ++
      (littleEndian 2 (flagsOf f.shortName) ++ (littleEndian 2 deflated ++
      (littleEndian 2 Stamp.epoch.time ++ (littleEndian 2 Stamp.epoch.date ++
      (littleEndian 4 (checksum f.bytes).toNat ++
      (littleEndian 4 (Deflate.store f.bytes).length ++ (littleEndian 4 f.bytes.length ++
      (littleEndian 2 (nameBytes f.shortName).length ++ (littleEndian 2 0 ++
      (nameBytes f.shortName ++ (Deflate.store f.bytes ++ rest)))))))))))) := by
  simp only [entryBytes, commonPart, List.append_assoc]

/-- The data of an entry is what was written behind its header. -/
theorem dataOf_entryBytes {f : File} (hf : f.Fits) (before rest : List UInt8) {limit : Int}
    (hlimit : ((before.length + (entryBytes f).length : Nat) : Int) ≤ limit) :
    dataOf (before ++ (entryBytes f ++ rest)) (.of f before.length) limit =
      .ok (Deflate.store f.bytes) := by
  have hmark := fun {start : Nat} (h : 4 ≤ start) => piece_append headerMark (k := 4) rfl h
  have hflags : flagsOf f.shortName < 256 ^ 2 := by
    rcases flagsOf_cases f.shortName with h | h <;> rw [h] <;> decide
  have hflag : hasFlag (flagsOf f.shortName) 32 = false ∧ hasFlag (flagsOf f.shortName) 64 = false ∧
      hasFlag (flagsOf f.shortName) 1 = false := by
    rcases flagsOf_cases f.shortName with h | h <;> rw [h] <;> decide
  have hdrop : (before ++ (entryBytes f ++ rest)).drop (Int.toNat (before.length : Nat)) =
      entryBytes f ++ rest := List.drop_left
  have hlength : (entryBytes f ++ rest).length = headerSize + (nameBytes f.shortName).length +
      (Deflate.store f.bytes).length + rest.length := by
    rw [List.length_append, length_entryBytes]
  rw [length_entryBytes] at hlimit
  unfold headerSize at hlength hlimit
  -- At the offsets of the header stands what was written there.
  have hstart : piece (entryBytes f ++ rest) 0 4 = headerMark := by
    rw [entryBytes_append]
    exact piece_zero rfl _
  have hnumbers : numberAt (entryBytes f ++ rest) 6 2 = flagsOf f.shortName ∧
      numberAt (entryBytes f ++ rest) 26 2 = (nameBytes f.shortName).length ∧
      numberAt (entryBytes f ++ rest) 28 2 = 0 := by
    refine ⟨?_, ?_, ?_⟩ <;>
      simp (disch := decide) only [numberAt, entryBytes_append, hmark, piece_skip, Nat.reduceSub,
        piece_littleEndian, number_littleEndian, number_littleEndian hflags,
        number_littleEndian hf.name]
  have hname : piece (entryBytes f ++ rest) 30 (nameBytes f.shortName).length =
      nameBytes f.shortName := by
    simp (disch := decide) only [entryBytes_append, hmark, piece_skip, Nat.reduceSub,
      piece_zero rfl]
  have hfront : (headerMark ++ commonPart f ++ nameBytes f.shortName).length =
      30 + (nameBytes f.shortName).length := by
    simp only [commonPart, List.length_append, length_littleEndian]
    rfl
  have hdata : ((entryBytes f ++ rest).drop (30 + (nameBytes f.shortName).length)).take
      (Deflate.store f.bytes).length = Deflate.store f.bytes := by
    rw [entryBytes, List.append_assoc, ← hfront, List.drop_left, List.take_left]
  have hlong : ¬(entryBytes f ++ rest).length < 30 := by omega
  -- Every check of the header passes, and what is taken is the data.
  rw [dataOf]
  simp only [Entry.of, hdrop, hstart, hnumbers, headerSize, hname, hflag,
    nameOf?_nameBytes hf.paired,
    Nat.add_zero, hdata, decide_eq_false hlong, bne_self_eq_false, Bool.or_self]
  rw [if_neg (by omega), if_neg Bool.false_ne_true, if_neg Bool.false_ne_true,
    if_neg Bool.false_ne_true, if_neg (by omega), if_neg Bool.false_ne_true]

/-- The contents of an entry are the bytes of its file. -/
theorem contents_entryBytes {f : File} (hf : f.Fits) (before rest : List UInt8) {limit : Int}
    (hlimit : ((before.length + (entryBytes f).length : Nat) : Int) ≤ limit) :
    contents (before ++ (entryBytes f ++ rest)) (.of f before.length) limit = .ok f.bytes := by
  have hdeflated : ((Entry.of f before.length).method == stored) = false ∧
      ((Entry.of f before.length).method == deflated) = true := ⟨rfl, rfl⟩
  rw [contents, dataOf_entryBytes hf before rest hlimit]
  simp only [bind, Except.bind, hdeflated, Bool.false_eq_true, if_false, if_true,
    Deflate.inflate_store]
  rw [show (Entry.of f before.length).size = f.bytes.length from rfl, List.take_length,
    show (Entry.of f before.length).checksum = (checksum f.bytes).toNat from rfl, if_neg (by simp)]
  rfl

/-! ## Whole files -/

/-- The files of entries, which come after others. -/
def readFiles (bytes : List UInt8) (before : List Entry) : List Entry → Except ZipError (List File)
  | [] => .ok []
  | e :: rest => do
    let out ← contents bytes e (limit bytes before rest e)
    return ⟨e.name, out⟩ :: (← readFiles bytes (before ++ [e]) rest)

/-- The files of a zip file, with their names up to a NUL. -/
def read (bytes : List UInt8) : Except ZipError (List File) := do
  readFiles bytes [] (← directory bytes)

/-- Files that come back from a zip file, names and bytes. -/
def Keeps (files : List File) : Prop := read (write files) = .ok files

/-- Files that a zip file can hold. -/
structure Fits (files : List File) : Prop where
  /-- A name would be cut at a NUL. -/
  whole : ∀ f ∈ files, f.shortName = f.name
  /-- A name with half a surrogate pair could not be written. -/
  paired : ∀ f ∈ files, Text.isPaired f.shortName = true
  /-- The header of an entry holds the size of its name. -/
  names : ∀ f ∈ files, (nameBytes f.shortName).length < 256 ^ 2
  /-- The record at the end holds the offset of the directory and its size. -/
  size : (write files).length < 256 ^ 4

/-- No entry is longer than all entries together. -/
theorem length_entryBytes_le {f : File} {files : List File} (h : f ∈ files) :
    (entryBytes f).length ≤ (files.flatMap entryBytes).length :=
  (List.sublist_flatten_of_mem (List.mem_map_of_mem h)).length_le

/-- Each of files that fit together fits by itself. -/
theorem Fits.file {files : List File} (h : Fits files) {f : File} (hf : f ∈ files) : f.Fits where
  paired := h.paired f hf
  name := h.names f hf
  data := by
    have hsize := h.size
    have hentry := length_entryBytes_le hf
    rw [length_entryBytes] at hentry
    rw [write_eq, List.length_append, List.length_append] at hsize
    omega

/-- The size of a zip file is bounded by the sizes of the names and the data. -/
theorem length_write_le (files : List File) : (write files).length ≤
    22 + (files.map fun f => 81 + 2 * (nameBytes f.shortName).length + 6 * f.bytes.length).sum := by
  -- An entry of the directory repeats the name, and the data is stored as it is.
  have hparts : ∀ (files : List File) (offset : Nat),
      (files.flatMap entryBytes).length + (directoryBytes offset files).length ≤
        (files.map fun f =>
          81 + 2 * (nameBytes f.shortName).length + 6 * f.bytes.length).sum := by
    intro files
    induction files with
    | nil => exact fun _ => Nat.le_refl 0
    | cons f fs ih =>
      intro offset
      have hrest := ih (offset + (entryBytes f).length)
      have hdata := Deflate.length_store_le f.bytes
      have hentry := length_entryBytes f
      have hdirectory := length_directoryEntry f offset
      unfold headerSize at hentry
      unfold directoryEntrySize at hdirectory
      rw [List.flatMap_cons, directoryBytes, List.length_append, List.length_append, List.map_cons,
        List.sum_cons]
      omega
  have hrecord : ∀ count size offset, (endRecord count size offset).length = 22 := by
    intro count size offset
    simp only [endRecord, List.length_append, length_littleEndian]
    rfl
  have hall := hparts files 0
  rw [write_eq, List.length_append, List.length_append, hrecord]
  omega

/-- A file whose name is short already keeps it. -/
theorem name_of {f : File} (offset : Nat) (h : f.shortName = f.name) :
    (Entry.of f offset).name = f.name := by
  show String.ofList (f.shortName.toList.takeWhile _) = _
  rw [h]
  exact h

/-- Entries behind others start where those end. -/
theorem entriesOf_append (offset : Nat) (fs gs : List File) : entriesOf offset (fs ++ gs) =
    entriesOf offset fs ++ entriesOf (offset + (fs.flatMap entryBytes).length) gs := by
  induction fs generalizing offset with
  | nil => rfl
  | cons f fs ih =>
    rw [List.cons_append, entriesOf, ih, List.flatMap_cons, List.length_append, Nat.add_assoc]
    rfl

/-- The offsets of entries lie between where the first file starts and where the last one ends. -/
theorem offset_of_mem_entriesOf {files : List File} {offset : Nat} {e : Entry}
    (h : e ∈ entriesOf offset files) : (offset : Int) ≤ e.offset ∧
      e.offset < ((offset + (files.flatMap entryBytes).length : Nat) : Int) := by
  induction files generalizing offset with
  | nil => exact absurd h List.not_mem_nil
  | cons f fs ih =>
    have hlength := length_entryBytes f
    unfold headerSize at hlength
    rw [List.flatMap_cons, List.length_append]
    rcases List.mem_cons.1 h with rfl | h
    · constructor
      · exact le_rfl
      · show ((offset : Nat) : Int) < _
        omega
    · obtain ⟨hlow, hhigh⟩ := ih h
      omega

section Reading

/-! The file `f` of a zip file, behind those that were read and before those that are left. -/

variable {files done rest : List File} {f : File} (hfiles : files = done ++ f :: rest)
  (h : Fits files)
include hfiles

/-- The entry of a file stands behind those of the files before it. -/
theorem write_of_split : write files = done.flatMap entryBytes ++ (entryBytes f ++
    (rest.flatMap entryBytes ++ (directoryBytes 0 files ++ endRecord files.length
      (directoryBytes 0 files).length (files.flatMap entryBytes).length))) := by
  rw [write_eq]
  nth_rewrite 1 [hfiles]
  simp only [List.flatMap_append, List.flatMap_cons, List.append_assoc]

include h

/-- The data of a file ends where the next entry starts, or the directory. -/
theorem le_limit_of_split :
    (((done.flatMap entryBytes).length + (entryBytes f).length : Nat) : Int) ≤
      limit (write files) (entriesOf 0 done)
        (entriesOf ((done.flatMap entryBytes).length + (entryBytes f).length) rest)
        (.of f (done.flatMap entryBytes).length) := by
  have hend : (files.flatMap entryBytes).length = (done.flatMap entryBytes).length +
      ((entryBytes f).length + (rest.flatMap entryBytes).length) := by
    rw [hfiles, List.flatMap_append, List.flatMap_cons, List.length_append, List.length_append]
  refine le_limit (fun e he => ?_) (fun e he => (offset_of_mem_entriesOf he).1) ?_
  · have hlate := (offset_of_mem_entriesOf he).2
    rwa [Nat.zero_add] at hlate
  · rw [directoryStart_write h.size, hend]
    omega

/-- The data of a file is read from its entry. -/
theorem contents_of_split :
    contents (write files) (.of f (done.flatMap entryBytes).length)
      (limit (write files) (entriesOf 0 done)
        (entriesOf ((done.flatMap entryBytes).length + (entryBytes f).length) rest)
        (.of f (done.flatMap entryBytes).length)) = .ok f.bytes := by
  have hf : f ∈ files := hfiles ▸ List.mem_append_right _ List.mem_cons_self
  nth_rewrite 1 [write_of_split hfiles]
  exact contents_entryBytes (h.file hf) _ _ (le_limit_of_split hfiles h)

end Reading

/-- The files that are left are read, whatever was read before. -/
theorem readFiles_write {files : List File} (h : Fits files) {rest done : List File}
    (hfiles : files = done ++ rest) :
    readFiles (write files) (entriesOf 0 done) (entriesOf (done.flatMap entryBytes).length rest) =
      .ok rest := by
  induction rest generalizing done with
  | nil => rfl
  | cons f rest ih =>
    have hf : f ∈ files := hfiles ▸ List.mem_append_right _ List.mem_cons_self
    have hmore : readFiles (write files) (entriesOf 0 (done ++ [f]))
        (entriesOf ((done ++ [f]).flatMap entryBytes).length rest) = .ok rest :=
      ih (by rw [hfiles, List.append_assoc]; rfl)
    rw [entriesOf_append, Nat.zero_add, List.flatMap_append, List.flatMap_singleton,
      List.length_append] at hmore
    rw [entriesOf, readFiles, contents_of_split hfiles h]
    show (readFiles _ _ _ >>= fun more => .ok (_ :: more)) = _
    rw [show [Entry.of f (done.flatMap entryBytes).length] =
      entriesOf (done.flatMap entryBytes).length [f] from rfl, hmore, name_of _ (h.whole f hf)]
    rfl

/-- **Names and bytes come back from a zip file that can hold them.** The reader takes the directory
at its word, so that the offsets and the sizes in it have to be those of the entries. -/
theorem keeps_of_fits {files : List File} (h : Fits files) : Keeps files := by
  rw [Keeps, read, directory_write (fun f hf => h.file hf) h.size]
  exact readFiles_write h (List.nil_append files).symm

end FormScaffold.Archive.Zip
