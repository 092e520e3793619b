import PingPong.StepMachine.Run
import Mathlib.Data.Finset.Card

/-!
# A pool of permits

The counting semaphore with `n` permits as an atomic object: its state is the set of holders, a
permit is acquired in one step when fewer than `n` are out, and released in one step by a holder.
-/

namespace PermitPool

/-- The operations of the pool. -/
inductive Op (H : Type*) where
  | acquire (h : H)
  | release (h : H)

variable {H : Type*} [DecidableEq H]

/-- The pool with `n` permits. -/
def pool (H : Type*) [DecidableEq H] (n : ℕ) : StepMachine (Finset H) (Op H) where
  step A op :=
    match op with
    | .acquire h => if h ∉ A ∧ A.card < n then some (insert h A) else none
    | .release h => if h ∈ A then some (A.erase h) else none

variable {n : ℕ} {A A' : Finset H} {h : H}

theorem acquire_eq_some (hA : h ∉ A) (hn : A.card < n) :
    (pool H n).step A (.acquire h) = some (insert h A) :=
  if_pos ⟨hA, hn⟩

theorem release_eq_some (hA : h ∈ A) : (pool H n).step A (.release h) = some (A.erase h) :=
  if_pos hA

/-- No step makes the pool overfull. -/
theorem card_le_step {op : Op H} (hA : A.card ≤ n) (hs : (pool H n).step A op = some A') :
    A'.card ≤ n := by
  cases op with
  | acquire h =>
    simp only [pool] at hs
    split at hs
    · rename_i hg
      cases hs
      rw [Finset.card_insert_of_notMem hg.1]
      omega
    · cases hs
  | release h =>
    simp only [pool] at hs
    split at hs
    · cases hs
      exact (Finset.card_erase_le).trans hA
    · cases hs

/-- Never more than `n` permits are out. -/
theorem card_le_run {ops : List (Op H)} (hs : (pool H n).run ∅ ops = some A) : A.card ≤ n :=
  StepMachine.run_invariant (I := fun B => B.card ≤ n)
    (fun _ _ _ hB hstep => card_le_step hB hstep) (by simp) hs

end PermitPool
