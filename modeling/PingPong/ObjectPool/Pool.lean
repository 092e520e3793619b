import Mathlib.Data.Nat.Notation
import Mathlib.Data.List.Nodup
import Mathlib.Logic.Function.Basic

/-!
# Pools of objects

A pool lends its objects to parties, which may also have objects from elsewhere. It knows which of its
objects wait and which are lent, and carries that no object is in the pool twice as a field.

`Owned` says that every object is in one place: a lent one is in the hands of one party, and one that waits
in nobody's. The lemmas at the end are the rules for what may happen to an object in a party's hands.
-/

/-- The objects that wait, the last one given back first, and those that are lent. -/
structure ObjectPool (β : Type*) where
  idle : List β
  lent : List β
  nodup : (idle ++ lent).Nodup

namespace ObjectPool

variable {β τ : Type*} {pool pool' : ObjectPool β} {b c : β} {n : ℕ}

def empty : ObjectPool β := ⟨[], [], List.nodup_nil⟩

theorem nodup_idle (pool : ObjectPool β) : pool.idle.Nodup := (List.nodup_append.mp pool.nodup).1

theorem nodup_lent (pool : ObjectPool β) : pool.lent.Nodup := (List.nodup_append.mp pool.nodup).2.1

section

variable [DecidableEq β]

/-- Lends an object that waits. -/
def take (pool : ObjectPool β) (b : β) : Option (ObjectPool β) :=
  if h : b ∈ pool.idle then
    some
      { idle := pool.idle.erase b
        lent := b :: pool.lent
        nodup := by
          have hperm : (pool.idle ++ pool.lent).Perm (pool.idle.erase b ++ b :: pool.lent) :=
            ((List.perm_cons_erase h).append_right _).trans List.perm_middle.symm
          exact hperm.nodup pool.nodup }
  else none

/-- Lends a new object, unless the pool has `n` objects already. -/
def make (n : ℕ) (pool : ObjectPool β) (b : β) : Option (ObjectPool β) :=
  if h : b ∉ pool.idle ++ pool.lent ∧ (pool.idle ++ pool.lent).length < n then
    some
      { idle := pool.idle
        lent := b :: pool.lent
        nodup := by
          have hperm : (pool.idle ++ b :: pool.lent).Perm (b :: (pool.idle ++ pool.lent)) :=
            List.perm_middle
          exact hperm.symm.nodup (List.nodup_cons.mpr ⟨h.1, pool.nodup⟩) }
  else none

/-- Takes a lent object back; it is dropped if `n` objects wait already. Other objects are refused. -/
def giveBack (n : ℕ) (pool : ObjectPool β) (b : β) : Option (ObjectPool β) :=
  if h : b ∈ pool.lent then
    have hperm : (pool.idle ++ pool.lent).Perm (b :: (pool.idle ++ pool.lent.erase b)) :=
      ((List.perm_cons_erase h).append_left _).trans List.perm_middle
    if pool.idle.length < n then
      some ⟨b :: pool.idle, pool.lent.erase b, hperm.nodup pool.nodup⟩
    else
      some ⟨pool.idle, pool.lent.erase b, (List.nodup_cons.mp (hperm.nodup pool.nodup)).2⟩
  else none

/-! ## What the operations do -/

theorem take_eq_some (h : pool.take b = some pool') :
    b ∈ pool.idle ∧ pool'.idle = pool.idle.erase b ∧ pool'.lent = b :: pool.lent := by
  unfold take at h
  split at h
  · rename_i hb
    cases h
    exact ⟨hb, rfl, rfl⟩
  · cases h

theorem make_eq_some (h : pool.make n b = some pool') :
    (b ∉ pool.idle ++ pool.lent ∧ (pool.idle ++ pool.lent).length < n) ∧
      pool'.idle = pool.idle ∧ pool'.lent = b :: pool.lent := by
  unfold make at h
  split at h
  · rename_i hb
    cases h
    exact ⟨hb, rfl, rfl⟩
  · cases h

theorem giveBack_eq_some (h : pool.giveBack n b = some pool') :
    b ∈ pool.lent ∧
      (pool'.idle = b :: pool.idle ∧ pool.idle.length < n ∨ pool'.idle = pool.idle) ∧
      pool'.lent = pool.lent.erase b := by
  unfold giveBack at h
  split at h
  · rename_i hb
    dsimp only at h
    split at h
    · rename_i hroom
      cases h
      exact ⟨hb, Or.inl ⟨rfl, hroom⟩, rfl⟩
    · cases h
      exact ⟨hb, Or.inr rfl, rfl⟩
  · cases h

/-- Nothing but the object itself waits in addition. -/
theorem mem_idle_of_giveBack (h : pool.giveBack n b = some pool') (hc : c ∈ pool'.idle) :
    c = b ∨ c ∈ pool.idle := by
  obtain ⟨-, hidle, -⟩ := giveBack_eq_some h
  rcases hidle with ⟨hidle, -⟩ | hidle
  · rw [hidle] at hc
    exact List.mem_cons.mp hc
  · rw [hidle] at hc
    exact Or.inr hc

theorem giveBack_eq_none (h : pool.giveBack n b = none) : b ∉ pool.lent := by
  intro hb
  unfold giveBack at h
  rw [dif_pos hb] at h
  dsimp only at h
  split at h
  · cases h
  · cases h

/-! ## Limits -/

/-- At most `n` objects, of which at most `m` wait. -/
structure Within (n m : ℕ) (pool : ObjectPool β) : Prop where
  total : pool.idle.length + pool.lent.length ≤ n
  waiting : pool.idle.length ≤ m

namespace Within

variable {m : ℕ}

theorem take (h : Within n m pool) (htake : pool.take b = some pool') : Within n m pool' := by
  obtain ⟨hb, hidle, hlent⟩ := take_eq_some htake
  have hlength := List.length_erase_of_mem hb
  have hpos := List.length_pos_of_mem hb
  have htotal := h.total
  have hwaiting := h.waiting
  refine ⟨?_, ?_⟩
  · rw [hidle, hlent, hlength, List.length_cons]
    omega
  · rw [hidle, hlength]
    omega

theorem make (h : Within n m pool) (hmake : pool.make n b = some pool') : Within n m pool' := by
  obtain ⟨⟨-, hroom⟩, hidle, hlent⟩ := make_eq_some hmake
  rw [List.length_append] at hroom
  refine ⟨?_, ?_⟩
  · rw [hidle, hlent, List.length_cons]
    omega
  · rw [hidle]
    exact h.waiting

theorem giveBack (h : Within n m pool) (hback : pool.giveBack m b = some pool') : Within n m pool' := by
  obtain ⟨hb, hidle, hlent⟩ := giveBack_eq_some hback
  have hlength := List.length_erase_of_mem hb
  have hpos := List.length_pos_of_mem hb
  have htotal := h.total
  rcases hidle with ⟨hidle, hroom⟩ | hidle
  · refine ⟨?_, ?_⟩
    · rw [hidle, hlent, hlength, List.length_cons]
      omega
    · rw [hidle, List.length_cons]
      omega
  · refine ⟨?_, ?_⟩
    · rw [hidle, hlent, hlength]
      omega
    · rw [hidle]
      exact h.waiting

end Within

end

/-! ## Objects in the hands of parties -/

/-- Every object is in one place. -/
structure Owned (pool : ObjectPool β) (holds : τ → Option β) : Prop where
  /-- No two parties have one object. -/
  exclusive : ∀ t t' b, holds t = some b → holds t' = some b → t = t'
  /-- Objects that wait are in nobody's hands. -/
  idle_free : ∀ t b, holds t = some b → b ∉ pool.idle
  /-- Lent objects are in somebody's hands. -/
  lent_held : ∀ b ∈ pool.lent, ∃ t, holds t = some b

namespace Owned

variable {holds : τ → Option β} {t : τ}

theorem empty : Owned ObjectPool.empty fun _ : τ => (none : Option β) where
  exclusive _ _ _ h := by cases h
  idle_free _ _ h := by cases h
  lent_held _ h := by cases h

variable [DecidableEq τ]

/-- A party without an object gets one that nobody has and that does not wait any more. -/
theorem get (h : Owned pool holds) (hfree : holds t = none) (hnew : ∀ t', holds t' ≠ some b)
    (hidle : ∀ c ∈ pool'.idle, c ∈ pool.idle ∧ c ≠ b)
    (hlent : ∀ c ∈ pool'.lent, c = b ∨ c ∈ pool.lent) :
    Owned pool' (Function.update holds t (some b)) := by
  refine ⟨?_, ?_, ?_⟩
  · intro t₁ t₂ c h₁ h₂
    by_cases ht₁ : t₁ = t
    · by_cases ht₂ : t₂ = t
      · rw [ht₁, ht₂]
      · rw [ht₁, Function.update_self] at h₁
        rw [Function.update_of_ne ht₂, ← h₁] at h₂
        exact absurd h₂ (hnew t₂)
    · rw [Function.update_of_ne ht₁] at h₁
      by_cases ht₂ : t₂ = t
      · rw [ht₂, Function.update_self] at h₂
        rw [← h₂] at h₁
        exact absurd h₁ (hnew t₁)
      · rw [Function.update_of_ne ht₂] at h₂
        exact h.exclusive t₁ t₂ c h₁ h₂
  · intro t' c hc hmem
    obtain ⟨hwaits, hne⟩ := hidle c hmem
    by_cases ht : t' = t
    · rw [ht, Function.update_self] at hc
      exact hne (Option.some.inj hc).symm
    · rw [Function.update_of_ne ht] at hc
      exact h.idle_free t' c hc hwaits
  · intro c hmem
    rcases hlent c hmem with rfl | hmem
    · exact ⟨t, Function.update_self ..⟩
    · obtain ⟨t', ht'⟩ := h.lent_held c hmem
      have hne : t' ≠ t := by
        rintro rfl
        rw [hfree] at ht'
        cases ht'
      exact ⟨t', by rw [Function.update_of_ne hne, ht']⟩

/-- A party gets an object from elsewhere. -/
theorem outside (h : Owned pool holds) (hfree : holds t = none) (hnew : ∀ t', holds t' ≠ some b)
    (hb : b ∉ pool.idle) : Owned pool (Function.update holds t (some b)) :=
  h.get hfree hnew (fun _ hc => ⟨hc, fun hcb => hb (hcb ▸ hc)⟩) fun _ hc => Or.inr hc

/-- A party loses its object, which waits afterwards or has left the pool. -/
theorem lose (h : Owned pool holds) (ht : holds t = some b)
    (hidle : ∀ c ∈ pool'.idle, c = b ∨ c ∈ pool.idle)
    (hlent : ∀ c ∈ pool'.lent, c ∈ pool.lent ∧ c ≠ b) :
    Owned pool' (Function.update holds t none) := by
  have hold : ∀ t' c, Function.update holds t none t' = some c → t' ≠ t ∧ holds t' = some c := by
    intro t' c hc
    by_cases ht' : t' = t
    · rw [ht', Function.update_self] at hc
      cases hc
    · rw [Function.update_of_ne ht'] at hc
      exact ⟨ht', hc⟩
  refine ⟨?_, ?_, ?_⟩
  · intro t₁ t₂ c h₁ h₂
    exact h.exclusive t₁ t₂ c (hold t₁ c h₁).2 (hold t₂ c h₂).2
  · intro t' c hc hmem
    obtain ⟨hne, hc⟩ := hold t' c hc
    rcases hidle c hmem with rfl | hmem
    · exact hne (h.exclusive t' t c hc ht)
    · exact h.idle_free t' c hc hmem
  · intro c hmem
    obtain ⟨hmem, hne⟩ := hlent c hmem
    obtain ⟨t', ht'⟩ := h.lent_held c hmem
    have hother : t' ≠ t := by
      rintro rfl
      rw [ht] at ht'
      exact hne (Option.some.inj ht').symm
    exact ⟨t', by rw [Function.update_of_ne hother, ht']⟩

variable [DecidableEq β]

/-- A party gets an object that waits. -/
theorem take (h : Owned pool holds) (hfree : holds t = none) (htake : pool.take b = some pool') :
    Owned pool' (Function.update holds t (some b)) := by
  obtain ⟨hb, hidle, hlent⟩ := take_eq_some htake
  refine h.get hfree (fun t' ht' => h.idle_free t' b ht' hb) ?_ ?_
  · intro c hc
    rw [hidle] at hc
    have hmem := (List.Nodup.mem_erase_iff pool.nodup_idle).mp hc
    exact ⟨hmem.2, hmem.1⟩
  · intro c hc
    rw [hlent] at hc
    exact List.mem_cons.mp hc

/-- A party gets a new object of the pool. -/
theorem make (h : Owned pool holds) (hfree : holds t = none) (hnew : ∀ t', holds t' ≠ some b)
    (hmake : pool.make n b = some pool') : Owned pool' (Function.update holds t (some b)) := by
  obtain ⟨⟨hb, -⟩, hidle, hlent⟩ := make_eq_some hmake
  refine h.get hfree hnew ?_ ?_
  · intro c hc
    rw [hidle] at hc
    exact ⟨hc, fun hcb => hb (List.mem_append.mpr (Or.inl (hcb ▸ hc)))⟩
  · intro c hc
    rw [hlent] at hc
    exact List.mem_cons.mp hc

/-- The object goes back to the pool. -/
theorem giveBack (h : Owned pool holds) (ht : holds t = some b)
    (hback : pool.giveBack n b = some pool') : Owned pool' (Function.update holds t none) := by
  obtain ⟨-, -, hlent⟩ := giveBack_eq_some hback
  refine h.lose ht (fun c hc => mem_idle_of_giveBack hback hc) fun c hc => ?_
  rw [hlent] at hc
  have hmem := (List.Nodup.mem_erase_iff pool.nodup_lent).mp hc
  exact ⟨hmem.2, hmem.1⟩

/-- The pool refuses the object. -/
theorem refuse (h : Owned pool holds) (ht : holds t = some b) (hback : pool.giveBack n b = none) :
    Owned pool (Function.update holds t none) :=
  h.lose ht (fun _ hc => Or.inr hc) fun _ hc => ⟨hc, fun hcb => giveBack_eq_none hback (hcb ▸ hc)⟩

end Owned

end ObjectPool
