import Mathlib.Data.List.Nodup

/-!
# Collections with a unique key

Documents are found by their key, and no two documents of a collection have the same key: an insert
of a key that exists fails. The collection carries the uniqueness as a field, so every operation
keeps it. A collection is used through `find`, and the lemmas say what each operation does to it.
-/

/-- A collection of documents, at most one for each key. -/
structure Keyed {κ δ : Type*} (key : δ → κ) where
  docs : List δ
  nodup : (docs.map key).Nodup

namespace Keyed

variable {κ δ : Type*} [DecidableEq κ] {key : δ → κ} {k k' : κ} {d : δ} {c c' : Keyed key}

/-- The document with the key `k`. -/
def find (c : Keyed key) (k : κ) : Option δ := c.docs.find? fun d => key d = k

/-- There is a document with the key `k`. -/
def contains (c : Keyed key) (k : κ) : Bool := c.docs.any fun d => key d = k

/-- Adds a document; `none` when its key exists. -/
def insert (c : Keyed key) (d : δ) : Option (Keyed key) :=
  if h : key d ∈ c.docs.map key then none
  else some ⟨d :: c.docs, by simpa using ⟨by simpa using h, c.nodup⟩⟩

/-- The list in which the first document with the key `k` is changed by `f`. -/
def updateList (key : δ → κ) (k : κ) (f : δ → δ) : List δ → List δ
  | [] => []
  | d :: ds => if key d = k then f d :: ds else d :: updateList key k f ds

theorem map_key_updateList {f : δ → δ} (hf : ∀ d, key d = k → key (f d) = k) (ds : List δ) :
    (updateList key k f ds).map key = ds.map key := by
  induction ds with
  | nil => rfl
  | cons d ds ih =>
    unfold updateList
    split
    · rename_i hd
      rw [List.map_cons, List.map_cons, hf d hd, hd]
    · rw [List.map_cons, List.map_cons, ih]

/-- Changes the first document with the key `k`, if there is one, by a function that keeps the key. -/
def updateFirst (c : Keyed key) (k : κ) (f : δ → δ) (hf : ∀ d, key d = k → key (f d) = k) :
    Keyed key where
  docs := updateList key k f c.docs
  nodup := by rw [map_key_updateList hf]; exact c.nodup

/-! ## What the operations find -/

theorem key_of_find (h : c.find k = some d) : key d = k := by
  simpa using List.find?_some h

theorem contains_eq_isSome : c.contains k = (c.find k).isSome := by
  rw [contains, find, List.isSome_find?]

theorem insert_eq_none_iff : c.insert d = none ↔ (c.find (key d)).isSome := by
  have hmem : c.contains (key d) = true ↔ key d ∈ c.docs.map key := by simp [contains]
  rw [← contains_eq_isSome, hmem]
  simp [insert]

theorem find_insert (h : c.insert d = some c') :
    c'.find k = if key d = k then some d else c.find k := by
  unfold insert at h
  split at h
  · cases h
  · obtain rfl := Option.some.inj h
    simp only [find, List.find?_cons]
    split <;> simp_all

theorem find?_updateList {f : δ → δ} (hf : ∀ d, key d = k → key (f d) = k) (ds : List δ) :
    (updateList key k f ds).find? (fun d => key d = k) =
      (ds.find? fun d => key d = k).map f := by
  induction ds with
  | nil => rfl
  | cons d ds ih =>
    unfold updateList
    by_cases hd : key d = k
    · simp [hd, hf d hd]
    · simp [hd, ih]

theorem find_updateFirst {f : δ → δ} {hf : ∀ d, key d = k → key (f d) = k} :
    (c.updateFirst k f hf).find k = (c.find k).map f :=
  find?_updateList hf c.docs

/-- A key that exists belongs to exactly one document. -/
theorem countP_key (h : (c.find k).isSome) : c.docs.countP (fun d => key d = k) = 1 := by
  have hcount : c.docs.countP (fun d => key d = k) = (c.docs.map key).count k := by
    rw [List.count, List.countP_map]
    exact List.countP_congr fun d _ => by simp
  obtain ⟨d, hd⟩ := Option.isSome_iff_exists.mp h
  have hmem : k ∈ c.docs.map key :=
    List.mem_map.mpr ⟨d, List.mem_of_find?_eq_some hd, key_of_find hd⟩
  rw [hcount]
  exact List.count_eq_one_of_mem c.nodup hmem

end Keyed
