import FormScaffold.Proofs.Traversal
import FormScaffold.Value.Fault

/-! # Well-formed values

A value is well-formed when none of its records repeats a key. What is taken out of such a value is
well-formed too.

* **`IsWellFormed`** — a value none of whose records repeats a key;
* `isWellFormed_get`, `isWellFormed_put` — entries of well-formed records;
* `isWellFormed_of_mem_elements`, **`isWellFormed_asRecord`** — elements and records of values. -/

namespace FormScaffold.Json

mutual

/-- No record in the value repeats a key. -/
def IsWellFormed : Value → Prop
  | .null => True
  | .bool _ => True
  | .int _ => True
  | .real _ => True
  | .text _ => True
  | .list items => AreWellFormed items
  | .record entries => (entries.map (·.1)).Nodup ∧ HoldWellFormed entries

/-- The items of a list are well-formed. -/
def AreWellFormed : List Value → Prop
  | [] => True
  | v :: vs => IsWellFormed v ∧ AreWellFormed vs

/-- The values in the entries of a record are well-formed. -/
def HoldWellFormed : List (String × Value) → Prop
  | [] => True
  | (_, v) :: es => IsWellFormed v ∧ HoldWellFormed es

end

/-- Values are well-formed when each of them is. -/
theorem areWellFormed_iff {vs : List Value} : AreWellFormed vs ↔ ∀ v ∈ vs, IsWellFormed v := by
  induction vs with
  | nil => simp [AreWellFormed]
  | cons v vs ih => rw [AreWellFormed, ih, List.forall_mem_cons]

/-- Entries hold well-formed values when each of them does. -/
theorem holdWellFormed_iff {es : Entries} :
    HoldWellFormed es ↔ ∀ e ∈ es, IsWellFormed e.2 := by
  induction es with
  | nil => simp [HoldWellFormed]
  | cons e es ih => rw [HoldWellFormed, ih, List.forall_mem_cons]

/-- Nothing is well-formed. -/
@[simp] theorem isWellFormed_null : IsWellFormed .null := trivial

/-- A truth value is well-formed. -/
@[simp] theorem isWellFormed_bool (b : Bool) : IsWellFormed (.bool b) := trivial

/-- A whole number is well-formed. -/
@[simp] theorem isWellFormed_int (n : Int) : IsWellFormed (.int n) := trivial

/-- A real number is well-formed. -/
@[simp] theorem isWellFormed_real (x : Real64) : IsWellFormed (.real x) := trivial

/-- A text is well-formed. -/
@[simp] theorem isWellFormed_text (s : String) : IsWellFormed (.text s) := trivial

/-- A list is well-formed when its items are. -/
@[simp] theorem isWellFormed_list {vs : List Value} :
    IsWellFormed (.list vs) ↔ ∀ v ∈ vs, IsWellFormed v := areWellFormed_iff

/-- A record is well-formed when it repeats no key and holds well-formed values. -/
@[simp] theorem isWellFormed_record {es : Entries} :
    IsWellFormed (.record es) ↔ (es.map (·.1)).Nodup ∧ ∀ e ∈ es, IsWellFormed e.2 := by
  rw [IsWellFormed, holdWellFormed_iff]

/-! ## Entries -/

/-- A key that is not there is put at the end. -/
theorem put_of_not_mem {es : Entries} {key : String} (h : key ∉ es.map (·.1)) (v : Value) :
    es.put key v = es ++ [(key, v)] := by
  induction es with
  | nil => rfl
  | cons e es ih =>
    obtain ⟨k, old⟩ := e
    rw [List.map_cons, List.mem_cons, not_or] at h
    rw [Entries.put, if_neg (by simpa using Ne.symm h.1), ih h.2]
    rfl

/-- The entries of a well-formed value are those of a well-formed record. -/
theorem isWellFormed_entries {v : Value} (h : IsWellFormed v) {es : Entries}
    (hes : v.entries = .ok es) : IsWellFormed (.record es) := by
  cases v with
  | record entries => rwa [← Except.ok.inj hes]
  | _ => exact absurd hes (by simp [Value.entries])

/-- What stands under a key of a well-formed record is well-formed, also when it is nothing. -/
theorem isWellFormed_get {es : Entries} (h : IsWellFormed (.record es)) (key : String) :
    IsWellFormed (es.get key) := by
  rw [Entries.get, Entries.get?]
  cases hfind : es.find? (·.1 == key) with
  | none => trivial
  | some e => exact (isWellFormed_record.1 h).2 e (List.mem_of_find?_eq_some hfind)

/-- The keys after a put are those before, and perhaps the new one at the end. -/
theorem map_fst_put (es : Entries) (key : String) (v : Value) :
    (es.put key v).map (·.1) =
      if key ∈ es.map (·.1) then es.map (·.1) else es.map (·.1) ++ [key] := by
  induction es with
  | nil => rfl
  | cons e es ih =>
    obtain ⟨k, old⟩ := e
    by_cases hk : k = key
    · subst hk
      simp [Entries.put]
    · have hmem : key ∈ ((k, old) :: es).map (·.1) ↔ key ∈ es.map (·.1) := by
        simp [Ne.symm hk]
      rw [Entries.put, if_neg (by simpa using hk), List.map_cons, ih]
      simp only [hmem]
      split <;> rfl

/-- After a value was put, every entry was there before or holds the value. -/
theorem mem_put {es : Entries} {key : String} {v : Value} {e : String × Value}
    (h : e ∈ es.put key v) : e ∈ es ∨ e.2 = v := by
  induction es with
  | nil => exact .inr (by rw [List.mem_singleton.1 h])
  | cons e' es ih =>
    obtain ⟨k, old⟩ := e'
    rw [Entries.put] at h
    split at h
    · rcases List.mem_cons.1 h with rfl | h
      · exact .inr rfl
      · exact .inl (List.mem_cons_of_mem _ h)
    · rcases List.mem_cons.1 h with rfl | h
      · exact .inl List.mem_cons_self
      · exact (ih h).imp_left (List.mem_cons_of_mem _)

/-- No key is there twice after a put when none was before. -/
theorem nodup_put {es : Entries} (h : (es.map (·.1)).Nodup) (key : String) (v : Value) :
    ((es.put key v).map (·.1)).Nodup := by
  rw [map_fst_put]
  split
  · exact h
  · rename_i hkey
    rw [← List.concat_eq_append]
    exact h.concat hkey

/-- A record stays well-formed when something well-formed is put into it. -/
theorem isWellFormed_put {es : Entries} (h : IsWellFormed (.record es)) (key : String) {v : Value}
    (hv : IsWellFormed v) : IsWellFormed (.record (es.put key v)) := by
  obtain ⟨hkeys, hvalues⟩ := isWellFormed_record.1 h
  refine isWellFormed_record.2 ⟨nodup_put hkeys key v, fun e he => ?_⟩
  rcases mem_put he with he | he
  · exact hvalues e he
  · rwa [he]

/-! ## Uses of values -/

/-- The elements of a well-formed value are well-formed. Those of a record are its keys, those of a
text its characters. -/
theorem isWellFormed_of_mem_elements {v : Value} (h : IsWellFormed v) {vs : List Value}
    (hvs : v.elements = .ok vs) : ∀ w ∈ vs, IsWellFormed w := by
  intro w hw
  cases v with
  | list items =>
    rw [← Except.ok.inj hvs] at hw
    exact isWellFormed_list.1 h w hw
  | text s =>
    rw [← Except.ok.inj hvs] at hw
    obtain ⟨c, -, rfl⟩ := List.mem_map.1 hw
    trivial
  | record es =>
    rw [← Except.ok.inj hvs] at hw
    obtain ⟨e, -, rfl⟩ := List.mem_map.1 hw
    trivial
  | _ => exact absurd hvs (by simp [Value.elements])

/-- The elements of a well-formed value are well-formed, also when a missing list counts as an empty
one. -/
theorem isWellFormed_of_mem_elementsOrNone {v : Value} (h : IsWellFormed v) {vs : List Value}
    (hvs : v.elementsOrNone = .ok vs) : ∀ w ∈ vs, IsWellFormed w := by
  unfold Value.elementsOrNone at hvs
  split at hvs
  · exact isWellFormed_of_mem_elements h hvs
  · rw [← Except.ok.inj hvs]
    simp

/-- A pair gives a well-formed entry. -/
theorem isWellFormed_pairAt {place : Nat} {v : Value} (h : IsWellFormed v) {e : String × Value}
    (he : Value.pairAt place v = .ok e) : IsWellFormed e.2 := by
  unfold Value.pairAt at he
  split at he
  · exact absurd he (by simp)
  · rename_i k w hkw
    obtain ⟨key, -, he⟩ := bind_eq_ok.1 he
    rw [← Except.ok.inj he]
    exact isWellFormed_of_mem_elements h hkw w (by simp)
  · exact absurd he (by simp)

/-- A record that is made from well-formed pairs is well-formed: a key that comes again takes the
place of the earlier one. -/
theorem isWellFormed_recordOfPairs {place : Nat} {made es : Entries} {vs : List Value}
    (hmade : IsWellFormed (.record made)) (hvs : ∀ v ∈ vs, IsWellFormed v)
    (h : Value.recordOfPairs place made vs = .ok es) : IsWellFormed (.record es) := by
  induction vs generalizing place made with
  | nil => rwa [← Except.ok.inj h]
  | cons v vs ih =>
    obtain ⟨hv, hvs⟩ := List.forall_mem_cons.1 hvs
    obtain ⟨e, he, h⟩ := bind_eq_ok.1 h
    exact ih (isWellFormed_put hmade e.1 (isWellFormed_pairAt hv he)) hvs h

/-- What a well-formed value makes as a record is well-formed. -/
theorem isWellFormed_asRecord {v : Value} (h : IsWellFormed v) {es : Entries}
    (hes : v.asRecord = .ok es) : IsWellFormed (.record es) := by
  have hpairs : ∀ {vs}, v.elements = .ok vs → Value.recordOfPairs 0 [] vs = .ok es →
      IsWellFormed (.record es) := fun hvs hmade =>
    isWellFormed_recordOfPairs (isWellFormed_record.2 (by simp))
      (isWellFormed_of_mem_elements h hvs) hmade
  cases v with
  | record es' =>
    rw [← Except.ok.inj hes]
    exact h
  | _ =>
    obtain ⟨vs, hvs, hmade⟩ := bind_eq_ok.1 hes
    exact hpairs hvs hmade

end FormScaffold.Json
