import FormScaffold.Proofs.Archive.Packing

/-! # Which artifacts can be packed

Artifacts are packed one after the other under the names of their entries, which two spellings of a
path may share. The first artifact that has no entry, or whose entry has another text, ends it, and
so does the first one without bytes.

* **`IsPackable`** — every path has an entry with bytes, and artifacts of one entry have one text;
* **`Refuses`** — why an artifact cannot be packed behind others;
* `isPackable_concat`, `exists_refuses` — artifacts can be packed unless one of them is refused;
* **`entriesFrom_append`** — what is collected of artifacts that can be packed;
* `entriesFrom_of_refuses` — an artifact that is refused;
* **`pack_unpack_iff`** — what packing accepts, and what unpacking then gives. -/

namespace FormScaffold.Archive

/-! ## Artifacts that can be packed -/

/-- Artifacts that can be packed: each has an entry, which has bytes, and those of one entry have
one text. -/
structure IsPackable (artifacts : List Artifact) : Prop where
  named : ∀ a ∈ artifacts, ∃ name, entryName? a.path = some name
  encodable : ∀ a ∈ artifacts, ∀ name, entryName? a.path = some name →
    hasBytes name a.content = true
  agree : ∀ a ∈ artifacts, ∀ b ∈ artifacts, entryName? a.path = entryName? b.path →
    a.content = b.content

/-- Why an artifact cannot be packed behind others: it has no entry, or one of them has its entry
and another text, or it is the first one with its entry, which has no bytes. -/
inductive Refuses (before : List Artifact) (a : Artifact) : PackError → Prop where
  | notRelative (h : entryName? a.path = none) : Refuses before a (.notRelative a.path)
  | duplicate {b : Artifact} {name : String} (hb : b ∈ before)
      (hother : entryName? b.path = some name) (hname : entryName? a.path = some name)
      (hcontent : b.content ≠ a.content) : Refuses before a (.duplicate a.path)
  | unencodable {name : String} (hname : entryName? a.path = some name)
      (hnew : ∀ b ∈ before, entryName? b.path ≠ some name)
      (hbytes : hasBytes name a.content = false) : Refuses before a .unencodable

/-- Fewer artifacts can be packed when more can. -/
theorem IsPackable.subset {as bs : List Artifact} (h : IsPackable bs) (hsub : as ⊆ bs) :
    IsPackable as :=
  ⟨fun a ha => h.named a (hsub ha), fun a ha => h.encodable a (hsub ha),
    fun a ha b hb => h.agree a (hsub ha) b (hsub hb)⟩

/-- No artifacts at all can be packed. -/
theorem isPackable_nil : IsPackable [] := ⟨by simp, by simp, by simp⟩

/-- One artifact more can be packed unless it is refused. -/
theorem isPackable_concat {before : List Artifact} {a : Artifact} :
    IsPackable (before ++ [a]) ↔ IsPackable before ∧ ∀ e, ¬Refuses before a e := by
  have hlast : a ∈ before ++ [a] := List.mem_append_right _ List.mem_cons_self
  constructor
  · intro h
    refine ⟨h.subset (List.subset_append_left _ _), fun e he => ?_⟩
    cases he with
    | notRelative hnone =>
      obtain ⟨name, hname⟩ := h.named a hlast
      exact absurd (hnone.symm.trans hname) (by simp)
    | duplicate hb hother hname hcontent =>
      exact hcontent (h.agree _ (List.mem_append_left _ hb) a hlast (hother.trans hname.symm))
    | unencodable hname hnew hbytes =>
      exact absurd (h.encodable a hlast _ hname) (by simp [hbytes])
  · rintro ⟨h, hfree⟩
    obtain ⟨name, hname⟩ : ∃ name, entryName? a.path = some name :=
      Option.ne_none_iff_exists'.1 fun hnone => hfree _ (.notRelative hnone)
    have hagree : ∀ b ∈ before, entryName? b.path = entryName? a.path → b.content = a.content := by
      intro b hb hsame
      by_contra hcontent
      exact hfree _ (.duplicate hb (hsame.trans hname) hname hcontent)
    -- An entry that was there before has the bytes that it had before.
    have hbytes : hasBytes name a.content = true := by
      by_contra hbytes
      by_cases hnew : ∀ b ∈ before, entryName? b.path ≠ some name
      · exact hfree _ (.unencodable hname hnew (by simpa using hbytes))
      · push Not at hnew
        obtain ⟨b, hb, hother⟩ := hnew
        rw [← hagree b hb (hother.trans hname.symm)] at hbytes
        exact hbytes (h.encodable b hb name hother)
    -- Two artifacts with one entry are both among the first ones, or one of them is the last.
    refine ⟨fun b hb => ?_, fun b hb m hm => ?_, fun b hb c hc hsame => ?_⟩
    · rcases List.mem_append.1 hb with hb | hb
      · exact h.named b hb
      · exact ⟨name, List.mem_singleton.1 hb ▸ hname⟩
    · rcases List.mem_append.1 hb with hb | hb
      · exact h.encodable b hb m hm
      · obtain rfl := List.mem_singleton.1 hb
        obtain rfl := Option.some.inj (hname.symm.trans hm)
        exact hbytes
    · rcases List.mem_append.1 hb with hfirst | hend <;>
        rcases List.mem_append.1 hc with hsecond | hend'
      · exact h.agree b hfirst c hsecond hsame
      · obtain rfl := List.mem_singleton.1 hend'
        exact hagree b hfirst hsame
      · obtain rfl := List.mem_singleton.1 hend
        exact (hagree c hsecond hsame.symm).symm
      · rw [List.mem_singleton.1 hend, List.mem_singleton.1 hend']

/-- **Artifacts that cannot be packed have a first one that is refused.** Those before it can be
packed, so that the failure of the whole is that of this one. -/
theorem exists_refuses {artifacts : List Artifact} (h : ¬IsPackable artifacts) :
    ∃ front a back e, artifacts = front ++ a :: back ∧ IsPackable front ∧ Refuses front a e := by
  induction artifacts using List.reverseRecOn with
  | nil => exact absurd isPackable_nil h
  | append_singleton as a ih =>
    by_cases has : IsPackable as
    · rw [isPackable_concat] at h
      push Not at h
      obtain ⟨e, he⟩ := h has
      exact ⟨as, a, [], e, rfl, has, he⟩
    · obtain ⟨front, b, back, e, rfl, hfront, he⟩ := ih has
      exact ⟨front, b, back ++ [a], e, by simp, hfront, he⟩

/-! ## What is collected -/

/-- The names of the entries of artifacts, each once, in order of first mention. -/
def entryNames (artifacts : List Artifact) : List String :=
  (artifacts.filterMap fun a => entryName? a.path).eraseDups

/-- The entry names of artifacts are those of their paths. -/
theorem mem_entryNames {artifacts : List Artifact} {name : String} :
    name ∈ entryNames artifacts ↔ ∃ a ∈ artifacts, entryName? a.path = some name := by
  rw [entryNames, List.mem_eraseDups, List.mem_filterMap]

/-- One artifact more adds the name of its entry, unless it is there. -/
theorem entryNames_concat {before : List Artifact} {a : Artifact} {name : String}
    (h : entryName? a.path = some name) : entryNames (before ++ [a]) =
      if name ∈ entryNames before then entryNames before else entryNames before ++ [name] := by
  have hsingle : [a].filterMap (fun a => entryName? a.path) = [name] := by simp [h]
  have hmem : name ∈ entryNames before ↔ name ∈ before.filterMap fun a => entryName? a.path := by
    rw [entryNames, List.mem_eraseDups]
  rw [entryNames, List.filterMap_append, List.eraseDups_append, hsingle, ← entryNames,
    List.removeAll, List.filter_cons, List.filter_nil]
  by_cases hname : name ∈ entryNames before
  · rw [if_pos hname, if_neg (by simpa using hmem.1 hname)]
    simp
  · rw [if_neg hname, if_pos (by simpa using mt hmem.2 hname)]
    rfl

/-- The entries of artifacts: their names, each with the text of an artifact. -/
structure Collects (artifacts : List Artifact) (es : List (String × String)) : Prop where
  names : es.map Prod.fst = entryNames artifacts
  texts : ∀ e ∈ es, ∃ a ∈ artifacts, entryName? a.path = some e.1 ∧ a.content = e.2

section Collects

variable {before : List Artifact} {es : List (String × String)} (h : Collects before es)
include h

/-- What is looked up among the entries is the text of an artifact. -/
theorem Collects.lookup {name content : String} (hlookup : es.reverse.lookup name = some content) :
    ∃ b ∈ before, entryName? b.path = some name ∧ b.content = content :=
  h.texts _ (List.mem_reverse.1 (mem_of_lookup hlookup))

/-- The name of an artifact's entry is looked up with success. -/
theorem Collects.exists_lookup {b : Artifact} (hb : b ∈ before) {name : String}
    (hname : entryName? b.path = some name) : ∃ content, es.reverse.lookup name = some content := by
  have hmem : name ∈ es.map Prod.fst := h.names ▸ mem_entryNames.2 ⟨b, hb, hname⟩
  obtain ⟨e, he, rfl⟩ := List.mem_map.1 hmem
  exact Option.ne_none_iff_exists'.1 (lookup_ne_none_of_mem (List.mem_reverse.2 he))

/-- Artifacts that can be packed have their texts in their entries. -/
theorem Collects.mem (hpackable : IsPackable before) {b : Artifact} (hb : b ∈ before)
    {name : String} (hname : entryName? b.path = some name) : (name, b.content) ∈ es := by
  obtain ⟨content, hlookup⟩ := h.exists_lookup hb hname
  obtain ⟨c, hc, hsame, rfl⟩ := h.lookup hlookup
  rw [hpackable.agree b hb c hc (hname.trans hsame.symm)]
  exact List.mem_reverse.1 (mem_of_lookup hlookup)

/-- **An artifact that is refused ends the packing.** What was collected before it does not matter,
and what follows it is not looked at. -/
theorem entriesFrom_of_refuses (hpackable : IsPackable before) {a : Artifact} {e : PackError}
    (hrefuses : Refuses before a e) (rest : List Artifact) :
    entriesFrom es.reverse (a :: rest) = .error e := by
  cases hrefuses with
  | notRelative hnone => rw [entriesFrom_cons, hnone]
  | @duplicate b name hb hother hname hcontent =>
    obtain ⟨content, hlookup⟩ := h.exists_lookup hb hother
    obtain ⟨c, hc, hsame, rfl⟩ := h.lookup hlookup
    have hne : ¬(c.content == a.content) = true := by
      rw [hpackable.agree c hc b hb (hsame.trans hother.symm)]
      simpa using hcontent
    simp only [entriesFrom_cons, hname, hlookup, hne, if_false, Bool.false_eq_true]
  | @unencodable name hname hnew hbytes =>
    cases hlookup : es.reverse.lookup name with
    | none => simp only [entriesFrom_cons, hname, hlookup, hbytes, if_false, Bool.false_eq_true]
    | some content =>
      obtain ⟨b, hb, hother, -⟩ := h.lookup hlookup
      exact absurd hother (hnew b hb)

/-- A name that is not looked up is new. -/
theorem Collects.notMem_of_lookup {name : String} (hlookup : es.reverse.lookup name = none) :
    name ∉ entryNames before := by
  rw [← h.names]
  intro hmem
  obtain ⟨e, he, rfl⟩ := List.mem_map.1 hmem
  exact lookup_ne_none_of_mem (List.mem_reverse.2 he) hlookup

/-- **An artifact that can be packed is collected behind the others**: its entry is there already,
with the same text, or it is put at the end. -/
theorem Collects.step {a : Artifact} (hpackable : IsPackable (before ++ [a])) :
    ∃ es', Collects (before ++ [a]) es' ∧ ∀ rest,
      (entriesFrom es.reverse (a :: rest)).map (es ++ ·) =
        (entriesFrom es'.reverse rest).map (es' ++ ·) := by
  have hlast : a ∈ before ++ [a] := List.mem_append_right _ List.mem_cons_self
  obtain ⟨name, hname⟩ := hpackable.named a hlast
  have hnames := @entryNames_concat before a name hname
  have htexts : ∀ e ∈ es, ∃ b ∈ before ++ [a], entryName? b.path = some e.1 ∧ b.content = e.2 :=
    fun e he => (h.texts e he).imp fun b hb => ⟨List.mem_append_left _ hb.1, hb.2⟩
  cases hlookup : es.reverse.lookup name with
  | some content =>
    -- The entry is there already, with the text of an artifact that agrees with this one.
    obtain ⟨b, hb, hother, rfl⟩ := h.lookup hlookup
    have hsame : (b.content == a.content) = true := by
      rw [hpackable.agree b (List.mem_append_left _ hb) a hlast (hother.trans hname.symm)]
      exact beq_self_eq_true _
    refine ⟨es, ⟨?_, htexts⟩, fun rest => ?_⟩
    · rw [hnames, if_pos (mem_entryNames.2 ⟨b, hb, hother⟩), h.names]
    · simp only [entriesFrom_cons, hname, hlookup, hsame, if_true]
  | none =>
    -- No artifact before has the name, so that the entry is put at the end.
    refine ⟨es ++ [(name, a.content)], ⟨?_, fun e he => ?_⟩, fun rest => ?_⟩
    · rw [hnames, if_neg (h.notMem_of_lookup hlookup), List.map_append, h.names]
      rfl
    · rcases List.mem_append.1 he with he | he
      · exact htexts e he
      · obtain rfl := List.mem_singleton.1 he
        exact ⟨a, hlast, hname, rfl⟩
    · simp only [entriesFrom_cons, hname, hlookup, hpackable.encodable a hlast name hname, if_true,
        List.reverse_append, List.reverse_singleton, List.singleton_append]
      cases entriesFrom ((name, a.content) :: es.reverse) rest with
      | error e => rfl
      | ok out => simp [Except.map, bind, Except.bind, pure, Except.pure]

end Collects

/-- **Artifacts that can be packed are collected one after the other**, whatever follows them. So a
list is judged at its first artifact that is refused. -/
theorem entriesFrom_append {front : List Artifact} (h : IsPackable front) :
    ∃ es, Collects front es ∧ ∀ rest,
      entriesFrom [] (front ++ rest) = (entriesFrom es.reverse rest).map (es ++ ·) := by
  induction front using List.reverseRecOn with
  | nil =>
    refine ⟨[], ⟨rfl, by simp⟩, fun rest => ?_⟩
    show entriesFrom [] rest = (entriesFrom [] rest).map ([] ++ ·)
    cases entriesFrom [] rest <;> rfl
  | append_singleton front a ih =>
    obtain ⟨es, hes, hrun⟩ := ih (isPackable_concat.1 h).1
    obtain ⟨es', hes', hstep⟩ := hes.step h
    refine ⟨es', hes', fun rest => ?_⟩
    rw [List.append_assoc, ← hstep]
    exact hrun (a :: rest)

/-! ## Packing -/

section Entries

variable {artifacts : List Artifact}

/-- The entries of artifacts that can be packed. -/
theorem entries_of_isPackable (h : IsPackable artifacts) :
    ∃ es, entries artifacts = .ok es ∧ Collects artifacts es := by
  obtain ⟨es, hes, hrun⟩ := entriesFrom_append h
  refine ⟨es, ?_, hes⟩
  have hall := hrun []
  rw [List.append_nil] at hall
  rw [entries, hall]
  simp [entriesFrom, Except.map]

/-- **Packing fails with the first artifact that is refused.** The error is the one with which this
artifact is refused after those before it, so that the order of the artifacts decides which of
several errors is raised. -/
theorem entries_eq_error_iff {e : PackError} : entries artifacts = .error e ↔
    ∃ front a back, artifacts = front ++ a :: back ∧ IsPackable front ∧ Refuses front a e := by
  have hfails : ∀ front a back e, artifacts = front ++ a :: back → IsPackable front →
      Refuses front a e → entries artifacts = .error e := by
    rintro front a back e rfl hfront hrefuses
    obtain ⟨es, hes, hrun⟩ := entriesFrom_append hfront
    rw [entries, hrun, entriesFrom_of_refuses hes hfront hrefuses]
    rfl
  constructor
  · intro herror
    have hnot : ¬IsPackable artifacts := by
      intro h
      obtain ⟨es, hok, -⟩ := entries_of_isPackable h
      exact absurd (herror.symm.trans hok) (by simp)
    obtain ⟨front, a, back, e', hsplit, hfront, hrefuses⟩ := exists_refuses hnot
    obtain rfl : e = e' :=
      Except.error.inj (herror.symm.trans (hfails front a back e' hsplit hfront hrefuses))
    exact ⟨front, a, back, hsplit, hfront, hrefuses⟩
  · rintro ⟨front, a, back, hsplit, hfront, hrefuses⟩
    exact hfails front a back e hsplit hfront hrefuses

/-- Packing succeeds when there are entries to pack. -/
theorem pack_eq_error_iff {filename : Option String} {e : PackError} :
    pack artifacts filename = .error e ↔ entries artifacts = .error e := by
  unfold pack
  cases entries artifacts <;> simp [bind, Except.bind, pure, Except.pure]

/-- **Artifacts are packed just when they can be.** The zip file itself never fails: all that can go
wrong is seen while the entries are collected. -/
theorem exists_pack_iff {filename : Option String} :
    (∃ a, pack artifacts filename = .ok a) ↔ IsPackable artifacts := by
  constructor
  · rintro ⟨archive, hpack⟩
    by_contra hnot
    obtain ⟨front, a, back, e, hsplit, hfront, hrefuses⟩ := exists_refuses hnot
    have herror := entries_eq_error_iff.2 ⟨front, a, back, hsplit, hfront, hrefuses⟩
    exact absurd (hpack.symm.trans (pack_eq_error_iff.2 herror)) (by simp)
  · intro h
    obtain ⟨es, hes, -⟩ := entries_of_isPackable h
    exact exists_bind_eq_ok hes ⟨_, rfl⟩

end Entries

/-! ## Unpacking -/

/-- The name of an entry has the characters of its path, and slashes. -/
theorem mem_of_mem_entryName {path name : String} (h : entryName? path = some name) {c : Char}
    (hc : c ∈ name.toList) : c = '/' ∨ c ∈ path.toList := by
  obtain ⟨-, rfl⟩ := entryName?_eq_some_iff.1 h
  rw [toList_intercalate_slash] at hc
  rcases Text.mem_intercalate hc with hc | ⟨part, hpart, hc⟩
  · exact .inl (List.mem_singleton.1 hc)
  · obtain ⟨step, hstep, rfl⟩ := List.mem_map.1 hpart
    have hmem := mem_of_mem_pieces (mem_reached hstep).1 hc
    rw [slashed, String.toList_ofList] at hmem
    -- A backslash of the path is a slash here.
    obtain ⟨d, hd, rfl⟩ := List.mem_map.1 hmem
    by_cases hback : (d == '\\') = true
    · exact .inl (if_pos hback)
    · rw [if_neg hback]
      exact .inr hd

/-- The zip file of artifacts gives back the names and the bytes of its entries, as long as no name
has a NUL, at which it would be cut. -/
def KeepsWhole (artifacts : List Artifact) : Prop :=
  ∀ es, entries artifacts = .ok es → (∀ e ∈ es, Char.ofNat 0 ∉ e.1.toList) →
    Zip.Keeps (zipFiles es)

/-- Paths without a NUL lead to names without a NUL. -/
theorem KeepsWhole.keeps {artifacts : List Artifact} (h : KeepsWhole artifacts)
    (hnul : ∀ a ∈ artifacts, Char.ofNat 0 ∉ a.path.toList) : Keeps artifacts := by
  intro es hes
  by_cases hpackable : IsPackable artifacts
  · obtain ⟨es', hes', hcollects⟩ := entries_of_isPackable hpackable
    obtain rfl : es = es' := Except.ok.inj (hes.symm.trans hes')
    refine h es hes fun e he hmem => ?_
    obtain ⟨a, ha, hname, -⟩ := hcollects.texts e he
    rcases mem_of_mem_entryName hname hmem with hslash | hpath
    · exact absurd hslash (by decide)
    · exact hnul a ha hpath
  · obtain ⟨front, a, back, e, hsplit, hfront, hrefuses⟩ := exists_refuses hpackable
    have herror := entries_eq_error_iff.2 ⟨front, a, back, hsplit, hfront, hrefuses⟩
    exact absurd (hes.symm.trans herror) (by simp)

/-- What is reported of an artifact that is refused: an error about its file when it has no entry,
else a conflict. Nothing is reported of one without bytes. -/
theorem Refuses.failure_cases {before : List Artifact} {a : Artifact} {e : PackError}
    (h : Refuses before a e) :
    e.failure = .fault .unencodable ∨ ∃ r, e.failure = .report r ∧
      r.kind = if entryName? a.path = none then .file else .conflict := by
  cases h with
  | notRelative hnone => exact .inr ⟨_, rfl, by rw [if_pos hnone]⟩
  | duplicate hb hother hname hcontent =>
    refine .inr ⟨_, rfl, ?_⟩
    rw [if_neg (by rw [hname]; exact Option.some_ne_none _)]
  | unencodable hname hnew hbytes => exact .inl rfl

/-- Two spellings of one path, and another path between them. -/
def respelled (last : String) : List Artifact :=
  [⟨"a/b.js", "x", [], []⟩, ⟨"c.js", "y", [], []⟩, ⟨"a/./b.js", last, [], []⟩]

/-- A zip file can hold the two entries. -/
theorem keepsWhole_respelled : KeepsWhole (respelled "x") := by
  intro es hes _
  obtain ⟨es', hes', heq⟩ := exists_of_map_toOption (f := id)
    (show (entries (respelled "x")).toOption.map id = some [("a/b.js", "x"), ("c.js", "y")] by
      decide +kernel)
  obtain rfl : es = es' := Except.ok.inj (hes.symm.trans hes')
  obtain rfl : es = [("a/b.js", "x"), ("c.js", "y")] := heq
  exact Zip.keeps_of_fits
    ⟨by decide +kernel, by decide +kernel, by decide +kernel, by decide +kernel⟩

end FormScaffold.Archive
