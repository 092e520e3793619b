import Mathlib.Algebra.Order.Field.Basic
import Mathlib.Tactic.Linarith
import Mathlib.Tactic.Ring

/-!
# Token buckets

A bucket fills at a constant rate up to its capacity and is charged one token for each request it
admits. A request is admitted when the level is not negative, so the bucket may go into debt by one
token; a request that finds a debt is rejected and costs nothing.

Two facts determine which requests a bucket admits from a given level. What it admits is paid for:
the `k`-th admitted request finds `k` tokens earned (`admitted_paid`). And it is greedy: it admits at
least as many requests as any selection of them that could be paid for (`length_le_countP_admitted`).
-/

/-- A bucket: the tokens it earns in one unit of time, and the tokens it can hold. -/
structure TokenBucket (K : Type*) where
  rate : K
  cap : K

namespace TokenBucket

variable {K : Type*}

/-- The level of a bucket at a given time. -/
structure Level (K : Type*) where
  amount : K
  time : K

variable [Field K] [LinearOrder K] (B : TokenBucket K)

/-- The level at time `t`, if no request is admitted before. -/
def levelAt (s : Level K) (t : K) : K := min B.cap (s.amount + B.rate * (t - s.time))

/-- The level after a request at time `t` has been charged. -/
def charge (s : Level K) (t : K) : Level K := ⟨B.levelAt s t - 1, t⟩

/-- The requests that are admitted, out of requests at the times `ts`. -/
def admitted : Level K → List K → List K
  | _, [] => []
  | s, t :: ts => if 0 ≤ B.levelAt s t then t :: admitted (B.charge s t) ts else admitted s ts

variable {B} {s : Level K} {t u : K} {ts us : List K}

theorem levelAt_le_cap : B.levelAt s t ≤ B.cap := min_le_left ..

theorem levelAt_le_line : B.levelAt s t ≤ s.amount + B.rate * (t - s.time) := min_le_right ..

theorem admitted_cons_pos (h : 0 ≤ B.levelAt s t) :
    B.admitted s (t :: ts) = t :: B.admitted (B.charge s t) ts :=
  if_pos h

theorem admitted_cons_neg (h : ¬ 0 ≤ B.levelAt s t) : B.admitted s (t :: ts) = B.admitted s ts :=
  if_neg h

theorem admitted_sublist : (B.admitted s ts).Sublist ts := by
  induction ts generalizing s with
  | nil => exact List.Sublist.slnil
  | cons t ts ih =>
    by_cases h : 0 ≤ B.levelAt s t
    · rw [admitted_cons_pos h]; exact ih.cons_cons t
    · rw [admitted_cons_neg h]; exact ih.cons t

/-- What is admitted depends only on the levels at the times of the requests. -/
theorem admitted_congr {s' : Level K} (h : ∀ t ∈ ts, B.levelAt s t = B.levelAt s' t) :
    B.admitted s ts = B.admitted s' ts := by
  induction ts with
  | nil => rfl
  | cons t ts ih =>
    have ht := h t List.mem_cons_self
    by_cases hpos : 0 ≤ B.levelAt s t
    · have hpos' : 0 ≤ B.levelAt s' t := by rwa [← ht]
      rw [admitted_cons_pos hpos, admitted_cons_pos hpos', charge, charge, ht]
    · have hpos' : ¬ 0 ≤ B.levelAt s' t := by rwa [← ht]
      rw [admitted_cons_neg hpos, admitted_cons_neg hpos']
      exact ih fun u hu => h u (List.mem_cons_of_mem _ hu)

variable [IsStrictOrderedRing K]

/-- A charge at an earlier time costs one token. -/
theorem levelAt_sub_one_le_charge (hrate : 0 ≤ B.rate) (htu : t ≤ u) :
    B.levelAt s u - 1 ≤ B.levelAt (B.charge s t) u := by
  have hearn : 0 ≤ B.rate * (u - t) := mul_nonneg hrate (sub_nonneg.mpr htu)
  have hcap : B.levelAt s u - 1 ≤ B.cap := by
    have := levelAt_le_cap (B := B) (s := s) (t := u)
    linarith
  refine le_min hcap ?_
  show B.levelAt s u - 1 ≤ B.levelAt s t - 1 + B.rate * (u - t)
  have hline : s.amount + B.rate * (u - s.time) =
      s.amount + B.rate * (t - s.time) + B.rate * (u - t) := by ring
  rcases min_choice B.cap (s.amount + B.rate * (t - s.time)) with h | h
  · have hle := levelAt_le_cap (B := B) (s := s) (t := u)
    have heq : B.levelAt s t = B.cap := h
    linarith
  · have hle := levelAt_le_line (B := B) (s := s) (t := u)
    have heq : B.levelAt s t = s.amount + B.rate * (t - s.time) := h
    linarith

/-- An admitted request is paid for: the `k` requests admitted before it and the initial amount are
covered by what the bucket has earned until then. -/
theorem admitted_paid (k : ℕ) (hk : k < (B.admitted s ts).length) :
    (k : K) ≤ s.amount + B.rate * ((B.admitted s ts)[k] - s.time) := by
  induction ts generalizing s k with
  | nil => simp [admitted] at hk
  | cons t ts ih =>
    by_cases h : 0 ≤ B.levelAt s t
    · simp only [admitted_cons_pos h] at hk ⊢
      have hline := levelAt_le_line (B := B) (s := s) (t := t)
      cases k with
      | zero =>
        rw [Nat.cast_zero, List.getElem_cons_zero]
        linarith
      | succ k =>
        rw [List.getElem_cons_succ, Nat.cast_succ]
        have hk' : k < (B.admitted (B.charge s t) ts).length := by simpa using hk
        set u := (B.admitted (B.charge s t) ts)[k] with hu
        have hcharge : (k : K) ≤ B.levelAt s t - 1 + B.rate * (u - t) := ih k hk'
        have hsplit : B.rate * (u - s.time) = B.rate * (t - s.time) + B.rate * (u - t) := by ring
        linarith
    · simp only [admitted_cons_neg h] at hk ⊢
      exact ih k hk

/-- The requests `us` could all be paid for, were they the only ones: the `k`-th of them finds a
level of at least `k`. -/
def Affordable (B : TokenBucket K) (s : Level K) (us : List K) : Prop :=
  ∀ (k : ℕ) (hk : k < us.length), (k : K) ≤ B.levelAt s us[k]

/-- What is left of an affordable list stays affordable after a charge at an earlier time. -/
theorem Affordable.tail (hrate : 0 ≤ B.rate) (h : Affordable B s (u :: us))
    (hle : ∀ v ∈ us, t ≤ v) : Affordable B (B.charge s t) us := by
  intro k hk
  have hpay := h (k + 1) (by simpa using hk)
  rw [List.getElem_cons_succ, Nat.cast_succ] at hpay
  have hcharge := levelAt_sub_one_le_charge (s := s) hrate (hle us[k] (List.getElem_mem hk))
  linarith

/-- Up to any time `hi`, a bucket admits at least as many requests as any affordable selection of
them has. -/
theorem length_le_countP_admitted (hrate : 0 ≤ B.rate) (hts : ts.Pairwise (· ≤ ·))
    (hsub : us.Sublist ts) (h : Affordable B s us) (hi : K) (hus : ∀ u ∈ us, u < hi) :
    us.length ≤ (B.admitted s ts).countP (fun t => decide (t < hi)) := by
  induction ts generalizing s us with
  | nil => rw [List.sublist_nil.mp hsub]; exact le_rfl
  | cons t ts ih =>
    obtain ⟨hle, hts⟩ := List.pairwise_cons.mp hts
    cases us with
    | nil => exact Nat.zero_le _
    | cons u us =>
      have htail : us.Sublist ts := hsub.of_cons_cons
      have hus' : ∀ v ∈ us, v < hi := fun v hv => hus v (List.mem_cons_of_mem _ hv)
      by_cases hlevel : 0 ≤ B.levelAt s t
      · have ht : t < hi := by
          have htu : t ≤ u := by
            rcases List.mem_cons.mp (hsub.subset List.mem_cons_self) with rfl | hu
            · exact le_rfl
            · exact hle u hu
          exact htu.trans_lt (hus u List.mem_cons_self)
        rw [admitted_cons_pos hlevel, List.countP_cons_of_pos (by simpa using ht), List.length_cons]
        have hrest := ih hts htail (h.tail hrate fun v hv => hle v (htail.subset hv)) hus'
        omega
      · -- the first request is rejected, so it is not the affordable one
        rw [admitted_cons_neg hlevel]
        cases hsub with
        | cons _ hsub => exact ih hts hsub h hus
        | cons_cons _ hsub =>
          have hfirst := h 0 (by simp)
          rw [List.getElem_cons_zero, Nat.cast_zero] at hfirst
          exact absurd hfirst hlevel

end TokenBucket
