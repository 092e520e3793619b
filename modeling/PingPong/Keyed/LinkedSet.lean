import Mathlib.Data.List.Nodup

/-!
# Sets that keep the order of insertion

Elements that are equal when their keys are. Adding an element whose key is there changes nothing, so the set
keeps the first of them, at its place. When the elements that are added are told apart by their keys, the set
has all of them (`mem_addAll_iff`), whatever the order and however often each has been added.
-/

/-- A list of elements with distinct keys. -/
structure LinkedSet {κ δ : Type*} (key : δ → κ) where
  elems : List δ
  nodup : (elems.map key).Nodup

namespace LinkedSet

variable {κ δ : Type*} [DecidableEq κ] {key : δ → κ} {s : LinkedSet key} {d x : δ} {ds : List δ}

def empty : LinkedSet key := ⟨[], .nil⟩

def add (s : LinkedSet key) (d : δ) : LinkedSet key :=
  if h : key d ∈ s.elems.map key then s
  else
    { elems := s.elems ++ [d]
      nodup := by
        rw [List.map_append, List.map_singleton]
        refine List.nodup_append.mpr ⟨s.nodup, List.nodup_singleton _, ?_⟩
        rintro k hk _ hd rfl
        exact h (List.mem_singleton.mp hd ▸ hk) }

def addAll (s : LinkedSet key) (ds : List δ) : LinkedSet key := ds.foldl add s

/-! ## Members -/

theorem mem_of_mem_add (h : x ∈ (s.add d).elems) : x ∈ s.elems ∨ x = d := by
  unfold add at h
  split at h
  · exact .inl h
  · exact (List.mem_append.mp h).imp_right List.mem_singleton.mp

theorem mem_add_of_mem (h : x ∈ s.elems) : x ∈ (s.add d).elems := by
  unfold add
  split
  · exact h
  · exact List.mem_append_left _ h

/-- An element that has been added is there when the elements with its key are equal to it. -/
theorem mem_add_self (hkey : ∀ y ∈ s.elems, key y = key d → y = d) : d ∈ (s.add d).elems := by
  unfold add
  split
  · rename_i h
    obtain ⟨y, hy, hyd⟩ := List.mem_map.mp h
    exact hkey y hy hyd ▸ hy
  · exact List.mem_append_right _ (List.mem_singleton_self d)

theorem mem_addAll_iff {P : δ → Prop} (hP : ∀ y z, P y → P z → key y = key z → y = z)
    (hs : ∀ y ∈ s.elems, P y) (hds : ∀ y ∈ ds, P y) : x ∈ (s.addAll ds).elems ↔ x ∈ s.elems ∨ x ∈ ds := by
  induction ds generalizing s with
  | nil => exact ⟨.inl, Or.rec id nofun⟩
  | cons d ds ih =>
    have hd := hds d List.mem_cons_self
    have hadd : ∀ y ∈ (s.add d).elems, P y := by
      intro y hy
      rcases mem_of_mem_add hy with hy | rfl
      · exact hs y hy
      · exact hd
    have hself : d ∈ (s.add d).elems := mem_add_self fun y hy => hP y d (hs y hy) hd
    show x ∈ ((s.add d).addAll ds).elems ↔ _
    rw [ih hadd fun y hy => hds y (List.mem_cons_of_mem _ hy), List.mem_cons]
    constructor
    · rintro (hx | hx)
      · exact (mem_of_mem_add hx).imp_right .inl
      · exact .inr (.inr hx)
    · rintro (hx | rfl | hx)
      · exact .inl (mem_add_of_mem hx)
      · exact .inl hself
      · exact .inr hx

/-- The elements of several lists, added one list after another. -/
theorem mem_foldl_addAll_iff {ι : Type*} {P : δ → Prop} (hP : ∀ y z, P y → P z → key y = key z → y = z)
    {f : ι → List δ} {is : List ι} (hs : ∀ y ∈ s.elems, P y) (hf : ∀ i ∈ is, ∀ y ∈ f i, P y) :
    x ∈ (is.foldl (fun s i => s.addAll (f i)) s).elems ↔ x ∈ s.elems ∨ ∃ i ∈ is, x ∈ f i := by
  induction is generalizing s with
  | nil => simp
  | cons i is ih =>
    have hfi := hf i List.mem_cons_self
    have hadd : ∀ {y}, y ∈ (s.addAll (f i)).elems ↔ y ∈ s.elems ∨ y ∈ f i := mem_addAll_iff hP hs hfi
    have hnext : ∀ y ∈ (s.addAll (f i)).elems, P y := fun y hy => (hadd.mp hy).elim (hs y) (hfi y)
    rw [List.foldl_cons, ih hnext fun j hj => hf j (List.mem_cons_of_mem _ hj), hadd, List.exists_mem_cons_iff,
      or_assoc]

end LinkedSet
