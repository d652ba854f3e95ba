import FormScaffold.Archive.Pack
import FormScaffold.Proofs.Archive.Encoding
import FormScaffold.Proofs.Archive.EntryName
import FormScaffold.Proofs.Archive.Zipping
import FormScaffold.Proofs.Traversal

/-! # Archives unpacked

What was packed is unpacked to the entries of the artifacts, in their order, as far as the zip file
keeps what was put into it.

* `Keeps` — the zip file of artifacts keeps their entries;
* `mem_of_lookup`, `lookup_ne_none_of_mem` — names that are looked up;
* `entries_of_nodup` — artifacts with entries of their own;
* `isOwn_entriesFrom` — no two entries have one name, and each is the name of an entry;
* **`unpack_pack`** — unpacking gives the entries back. -/

namespace FormScaffold.Archive

/-- The files that entries are in the zip file. -/
def zipFiles (es : List (String × String)) : List Zip.File :=
  es.map fun e => ⟨e.1, (Text.bytes e.2).toList⟩

/-- The zip file of artifacts gives back the names and the bytes of its entries. -/
def Keeps (artifacts : List Artifact) : Prop :=
  ∀ es, entries artifacts = .ok es → Zip.Keeps (zipFiles es)

/-! ## Entries -/

/-- A name that is looked up with success stands in the list. -/
theorem mem_of_lookup {es : List (String × String)} {name text : String}
    (h : es.lookup name = some text) : (name, text) ∈ es := by
  induction es with
  | nil => exact absurd h (by simp)
  | cons e es ih =>
    rw [List.lookup_cons] at h
    split at h
    · rename_i heq
      rw [← Option.some.inj h, beq_iff_eq.1 heq]
      exact List.mem_cons_self
    · exact List.mem_cons_of_mem _ (ih h)

/-- A name that stands in the list is looked up with success. -/
theorem lookup_ne_none_of_mem {es : List (String × String)} {e : String × String} (he : e ∈ es) :
    es.lookup e.1 ≠ none := by
  induction es with
  | nil => exact absurd he (by simp)
  | cons d es ih =>
    rw [List.lookup_cons]
    split
    · exact Option.some_ne_none _
    · rename_i hne
      refine ih ((List.mem_cons.1 he).resolve_left ?_)
      rintro rfl
      simp at hne

/-- **Artifacts with entries of their own have just these**, when all of them have bytes; otherwise
the first one without bytes ends the packing. -/
theorem entries_of_nodup {artifacts : List Artifact} {name : Artifact → String}
    (hname : ∀ a ∈ artifacts, entryName? a.path = some (name a))
    (hnodup : (artifacts.map name).Nodup) :
    entries artifacts = if artifacts.all fun a => hasBytes (name a) a.content then
      .ok (artifacts.map fun a => (name a, a.content)) else .error .unencodable := by
  -- None of the names was seen before, and this stays so.
  have hfrom : ∀ {as : List Artifact} {seen : List (String × String)},
      (∀ a ∈ as, entryName? a.path = some (name a)) → (as.map name).Nodup →
      (∀ a ∈ as, seen.lookup (name a) = none) →
      entriesFrom seen as = if as.all fun a => hasBytes (name a) a.content then
        .ok (as.map fun a => (name a, a.content)) else .error .unencodable := by
    intro as
    induction as with
    | nil => exact fun _ _ _ => rfl
    | cons a as ih =>
      intro seen hname hnodup hseen
      obtain ⟨ha, has⟩ := List.forall_mem_cons.1 hname
      obtain ⟨hnew, hnodup⟩ := List.nodup_cons.1 hnodup
      obtain ⟨hfree, hseen⟩ := List.forall_mem_cons.1 hseen
      have hrest := @ih ((name a, a.content) :: seen) has hnodup fun b hb => by
        have hne : (name b == name a) = false :=
          beq_eq_false_iff_ne.2 fun heq => hnew (heq ▸ List.mem_map_of_mem hb)
        rw [List.lookup_cons, hne]
        exact hseen b hb
      rw [entriesFrom_cons, ha, List.all_cons]
      simp only [hfree, hrest]
      cases hasBytes (name a) a.content with
      | false => rfl
      | true => cases as.all fun a => hasBytes (name a) a.content <;> rfl
  exact hfrom hname hnodup fun a _ => rfl

/-- The entries of artifacts have names of their own that were not seen before, these are names of
entries, and each entry has bytes. -/
theorem isOwn_entriesFrom {seen : List (String × String)} {artifacts : List Artifact}
    {es : List (String × String)} (h : entriesFrom seen artifacts = .ok es) :
    (es.map Prod.fst).Nodup ∧ (∀ e ∈ es, seen.lookup e.1 = none) ∧
      (∀ e ∈ es, ∃ path, entryName? path = some e.1) ∧ ∀ e ∈ es, hasBytes e.1 e.2 = true := by
  induction artifacts generalizing seen es with
  | nil =>
    obtain rfl := Except.ok.inj h
    simp
  | cons a as ih =>
    unfold entriesFrom at h
    split at h
    · exact absurd h (by simp)
    · rename_i name hname
      split at h
      · split at h
        · exact ih h
        · exact absurd h (by simp)
      · rename_i hfree
        split at h
        · rename_i hbytes
          obtain ⟨rest, hrest, hok⟩ := bind_eq_ok.1 h
          obtain rfl := Except.ok.inj hok
          obtain ⟨hnodup, hseen, hnames, hmore⟩ := ih hrest
          -- Later names are not found behind this one, so that they differ from it.
          have hnew : ∀ e ∈ rest, e.1 ≠ name ∧ seen.lookup e.1 = none := by
            intro e he
            have hlookup := hseen e he
            rw [List.lookup_cons] at hlookup
            split at hlookup
            · exact absurd hlookup (by simp)
            · rename_i hne
              exact ⟨by simpa using hne, hlookup⟩
          refine ⟨List.nodup_cons.2 ⟨fun hmem => ?_, hnodup⟩,
            List.forall_mem_cons.2 ⟨hfree, fun e he => (hnew e he).2⟩,
            List.forall_mem_cons.2 ⟨⟨_, hname⟩, hnames⟩,
            List.forall_mem_cons.2 ⟨hbytes, hmore⟩⟩
          obtain ⟨e, he, heq⟩ := List.mem_map.1 hmem
          exact (hnew e he).1 heq
        · exact absurd h (by simp)

/-! ## Unpacking -/

/-- A file under a new name is put behind the others. -/
theorem putText_of_new {files : List (String × String)} {name : String}
    (h : name ∉ files.map Prod.fst) (text : String) :
    putText files name text = files ++ [(name, text)] := by
  induction files with
  | nil => rfl
  | cons f files ih =>
    have hne : (f.1 == name) = false :=
      beq_eq_false_iff_ne.2 fun heq => h (heq ▸ List.mem_cons_self)
    rw [putText, hne, if_neg Bool.false_ne_true, ih fun hmem => h (List.mem_cons_of_mem _ hmem)]
    rfl

/-- Texts of their own are unpacked one behind another. -/
theorem unpackEntries_of_readFiles {bytes : List UInt8} {before zes : List Zip.Entry}
    {out es : List (String × String)} (h : Zip.readFiles bytes before zes = .ok (zipFiles es))
    (hplain : ∀ e ∈ es, e.1.toList.getLast? ≠ some '/')
    (hpaired : ∀ e ∈ es, Text.isPaired e.2 = true)
    (hnodup : ((out ++ es).map Prod.fst).Nodup) :
    unpackEntries bytes before out zes = .ok (out ++ es) := by
  induction zes generalizing before out es with
  | nil =>
    cases es with
    | nil =>
      rw [List.append_nil]
      rfl
    | cons e es => exact absurd (Except.ok.inj h) (by simp [zipFiles])
  | cons z zes ih =>
    obtain ⟨data, hdata, hmore⟩ := bind_eq_ok.1 h
    obtain ⟨rest, hrest, hok⟩ := bind_eq_ok.1 hmore
    cases es with
    | nil => exact absurd (Except.ok.inj hok) (by simp [zipFiles])
    | cons e es =>
      obtain ⟨hfile, rfl⟩ := List.cons.inj (Except.ok.inj hok)
      obtain ⟨hname, hbytes⟩ := Zip.File.mk.inj hfile
      obtain ⟨hlast, hplain⟩ := List.forall_mem_cons.1 hplain
      obtain ⟨hcontent, hpaired⟩ := List.forall_mem_cons.1 hpaired
      have hdirectory : z.isDirectory = false := by
        rw [Zip.Entry.isDirectory, hname]
        exact beq_eq_false_iff_ne.2 hlast
      have htext : Text.ofUtf8? (ByteArray.mk data.toArray) = some e.2 :=
        hbytes ▸ Zip.ofUtf8?_nameBytes hcontent
      have hnew : e.1 ∉ out.map Prod.fst := by
        rw [List.map_append, List.map_cons] at hnodup
        exact fun hmem => (List.nodup_append.1 hnodup).2.2 _ hmem _ List.mem_cons_self rfl
      -- The name is new, so that the text is added behind the others.
      have hstep : unpackEntry bytes out z (Zip.limit bytes before zes z) =
          .ok (out ++ [e]) := by
        rw [unpackEntry, hdirectory, if_neg Bool.false_ne_true, hdata]
        simp only [Except.mapError, bind, Except.bind, htext, hname, putText_of_new hnew]
        rfl
      rw [unpackEntries, hstep]
      show unpackEntries bytes (before ++ [z]) (out ++ [e]) zes = _
      rw [ih hrest hplain hpaired (by rwa [List.append_assoc]), List.append_assoc]
      rfl

/-- **Unpacking gives the entries back.** The entries of the list are the files of the archive, in
their order, whatever the name under which it is offered. -/
theorem unpack_pack {artifacts : List Artifact} {es : List (String × String)}
    (hes : entries artifacts = .ok es) (hkeeps : Keeps artifacts) (filename : Option String) :
    ∃ a, pack artifacts filename = .ok a ∧ unpack a.toEntries = .ok es := by
  obtain ⟨hnodup, -, hnames, hbytes⟩ := isOwn_entriesFrom hes
  obtain ⟨zes, hdirectory, hread⟩ := bind_eq_ok.1 (hkeeps es hes)
  have hplain : ∀ e ∈ es, e.1.toList.getLast? ≠ some '/' := fun e he =>
    (hnames e he).elim fun _ hpath => getLast?_of_entryName? hpath
  have hunpacked : unpackEntries (zipBytes es) [] [] zes = .ok es :=
    unpackEntries_of_readFiles hread hplain
      (fun e he => (Bool.and_eq_true_iff.1 (hbytes e he)).1) hnodup
  refine ⟨_, by rw [pack, hes]; rfl, ?_⟩
  -- The base 64 is ASCII, so that the text is taken for bytes as it is.
  have hascii : (Base64.encode (zipBytes es)).any (·.toNat ≥ 128) = false := by
    rw [List.any_eq_false]
    intro c hc
    simpa using Base64.toNat_lt_of_mem_encode hc
  have hraw : ∀ name, rawBytes (toEntries ⟨name, String.ofList (Base64.encode (zipBytes es))⟩) =
      .ok (zipBytes es) := by
    intro name
    have hdata : (toEntries ⟨name, String.ofList (Base64.encode (zipBytes es))⟩).get? "data" =
        some (.text (String.ofList (Base64.encode (zipBytes es)))) := rfl
    simp only [rawBytes, hdata, String.toList_ofList, hascii, Bool.false_eq_true, if_false,
      Base64.decode?_encode]
  show (rawBytes (toEntries _) >>= fun bytes => _) = _
  rw [hraw]
  show ((Zip.directory (Zip.write (zipFiles es))).mapError UnpackError.zip >>= _) = _
  rw [hdirectory]
  exact hunpacked

end FormScaffold.Archive
