import PingPong.Pong.ThrottlingInterceptor
import PingPong.TokenBucket.Bucket
import Mathlib.Tactic.FieldSimp

/-!
# Proofs: the throttle of Pong

Guava's limiter is a token bucket of one second's capacity (`passedTimes_serve`). An idle limiter
stores a full second of permits and earns another one while they are spent, so up to `2 r` requests
pass within a second. More than `r` pass exactly when a burst meets stored permits
(`burst_of_passed`, `passed_of_burst`).
-/

namespace PingPong.Pong

open TokenBucket

variable {r : ℕ} {l : RateLimiter} {i : ThrottlingInterceptor} {now t u lo : ℚ} {ts : List ℚ}

/-! ## The limiter is a token bucket -/

/-- The bucket with the rate `r` and the capacity of one second. -/
def bucket (r : ℕ) : TokenBucket ℚ where
  rate := r
  cap := r

/-- The level the limiter stands for. While a fresh permit is being paid for, its time is ahead. -/
def RateLimiter.level (l : RateLimiter) : Level ℚ where
  amount := l.storedPermits
  time := l.nextFreeTicket

/-- The limiter of the rate `r`, from the time `now` on. -/
structure Limits (r : ℕ) (l : RateLimiter) (now : ℚ) : Prop where
  max : l.maxPermits = r
  interval : l.stableInterval = 1 / r
  stored_nonneg : 0 ≤ l.storedPermits
  stored_le : l.storedPermits ≤ r
  waiting : now < l.nextFreeTicket → l.storedPermits = 0

theorem limits_create : Limits r (.create r) 0 where
  max := rfl
  interval := rfl
  stored_nonneg := le_rfl
  stored_le := Nat.cast_nonneg r
  waiting _ := rfl

theorem Limits.level_nonneg_iff (h : Limits r l now) (hr : 1 ≤ r) (ht : now ≤ t) :
    0 ≤ (bucket r).levelAt l.level t ↔ l.nextFreeTicket ≤ t := by
  have hrate : (0 : ℚ) < r := by exact_mod_cast hr
  constructor
  · intro hlevel
    by_contra hlate
    have hzero := h.waiting (by linarith)
    have hline := levelAt_le_line (B := bucket r) (s := l.level) (t := t)
    have hdebt : (r : ℚ) * (t - l.nextFreeTicket) < 0 :=
      mul_neg_of_pos_of_neg hrate (by linarith)
    have hamount : l.level.amount + (bucket r).rate * (t - l.level.time) =
        l.storedPermits + r * (t - l.nextFreeTicket) := rfl
    linarith
  · intro hfree
    have hearn : 0 ≤ (r : ℚ) * (t - l.nextFreeTicket) :=
      mul_nonneg hrate.le (sub_nonneg.mpr hfree)
    exact le_min hrate.le (add_nonneg h.stored_nonneg hearn)

theorem Limits.resync_storedPermits (h : Limits r l now) (hfree : l.nextFreeTicket ≤ t) :
    (l.resync t).storedPermits = (bucket r).levelAt l.level t := by
  show _ = min (r : ℚ) (l.storedPermits + r * (t - l.nextFreeTicket))
  unfold RateLimiter.resync
  split
  · show min l.maxPermits (l.storedPermits + (t - l.nextFreeTicket) / l.stableInterval) = _
    rw [h.max, h.interval, div_div_eq_mul_div, div_one, mul_comm]
  · rename_i hlt
    have heq : t - l.nextFreeTicket = 0 := by linarith
    rw [heq, mul_zero, add_zero, min_eq_right h.stored_le]

theorem resync_nextFreeTicket (hfree : l.nextFreeTicket ≤ t) :
    (l.resync t).nextFreeTicket = t := by
  unfold RateLimiter.resync
  split
  · rfl
  · linarith

theorem resync_maxPermits : (l.resync t).maxPermits = l.maxPermits := by
  unfold RateLimiter.resync
  split <;> rfl

theorem resync_stableInterval : (l.resync t).stableInterval = l.stableInterval := by
  unfold RateLimiter.resync
  split <;> rfl

/-- A permit costs one token. -/
theorem Limits.level_reserve (h : Limits r l now) (hr : 1 ≤ r) (hfree : l.nextFreeTicket ≤ t) :
    (bucket r).levelAt (l.reserve t).level u =
      (bucket r).levelAt ((bucket r).charge l.level t) u := by
  have hrate : (r : ℚ) ≠ 0 := by exact_mod_cast Nat.one_le_iff_ne_zero.mp hr
  set p := (bucket r).levelAt l.level t with hp
  have hstored : (l.resync t).storedPermits = p := h.resync_storedPermits hfree
  show min (r : ℚ) ((l.reserve t).storedPermits + r * (u - (l.reserve t).nextFreeTicket)) =
    min (r : ℚ) (p - 1 + r * (u - t))
  simp only [RateLimiter.reserve, hstored, resync_nextFreeTicket hfree, resync_stableInterval,
    h.interval]
  congr 1
  field_simp
  ring

theorem Limits.reserve (h : Limits r l now) (hr : 1 ≤ r) (ht : now ≤ t)
    (hfree : l.nextFreeTicket ≤ t) : Limits r (l.reserve t) t := by
  have hstored := h.resync_storedPermits hfree
  have hnonneg := (h.level_nonneg_iff hr ht).mpr hfree
  have hcap : (bucket r).levelAt l.level t ≤ r := levelAt_le_cap
  refine ⟨resync_maxPermits.trans h.max, resync_stableInterval.trans h.interval, ?_, ?_, ?_⟩
  · show 0 ≤ (l.resync t).storedPermits - min 1 (l.resync t).storedPermits
    exact sub_nonneg.mpr (min_le_right ..)
  · show (l.resync t).storedPermits - min 1 (l.resync t).storedPermits ≤ r
    have hspend : 0 ≤ min 1 (l.resync t).storedPermits := le_min zero_le_one (hstored ▸ hnonneg)
    linarith
  · -- a fresh permit was needed, so all stored ones are spent
    intro hwait
    have hwait' : t < (l.resync t).nextFreeTicket +
        (1 - min 1 (l.resync t).storedPermits) * (l.resync t).stableInterval := hwait
    show (l.resync t).storedPermits - min 1 (l.resync t).storedPermits = 0
    rcases le_total (l.resync t).storedPermits 1 with hle | hle
    · rw [min_eq_right hle, sub_self]
    · rw [min_eq_left hle, resync_nextFreeTicket hfree, sub_self, zero_mul, add_zero] at hwait'
      exact absurd hwait' (lt_irrefl t)

/-! ## What the interceptor passes -/

/-- The arrival times of the requests handed to the chain. -/
def passedTimes (served : List (ℚ × Filtered)) : List ℚ :=
  (served.filter fun x => x.2 = .chain).map Prod.fst

theorem passed_eq_countP (lo hi : ℚ) (served : List (ℚ × Filtered)) :
    passed lo hi served = (passedTimes served).countP fun t => decide (lo ≤ t ∧ t < hi) := by
  rw [passed, passedTimes, List.countP_map, List.countP_filter]
  refine List.countP_congr fun x _ => ?_
  simp [and_comm]

theorem filter_of_free (hfree : i.rateLimiter.nextFreeTicket ≤ t) :
    i.filter t = (.chain, ⟨i.rateLimiter.reserve t⟩) := by
  simp [ThrottlingInterceptor.filter, RateLimiter.tryAcquire, hfree]

theorem filter_of_not_free (hfree : ¬ i.rateLimiter.nextFreeTicket ≤ t) :
    i.filter t = (.status HttpStatus.rateLimited, i) := by
  simp [ThrottlingInterceptor.filter, RateLimiter.tryAcquire, hfree]

theorem filter_eq_chain_iff : (i.filter t).1 = .chain ↔ i.rateLimiter.nextFreeTicket ≤ t := by
  by_cases hfree : i.rateLimiter.nextFreeTicket ≤ t
  · simp [filter_of_free hfree, hfree]
  · simp [filter_of_not_free hfree, hfree]

theorem Limits.filter (h : Limits r i.rateLimiter now) (hr : 1 ≤ r) (ht : now ≤ t) :
    Limits r (i.filter t).2.rateLimiter t := by
  by_cases hfree : i.rateLimiter.nextFreeTicket ≤ t
  · rw [filter_of_free hfree]
    exact h.reserve hr ht hfree
  · rw [filter_of_not_free hfree]
    exact { h with waiting := fun hlt => h.waiting (by linarith) }

theorem Limits.after (h : Limits r i.rateLimiter now) (hr : 1 ≤ r)
    (hsorted : (now :: (ts ++ [t])).Pairwise (· ≤ ·)) :
    ∃ now' ≤ t, Limits r (i.after ts).rateLimiter now' := by
  induction ts generalizing i now with
  | nil =>
    obtain ⟨hle, -⟩ := List.pairwise_cons.mp hsorted
    exact ⟨now, hle t (by simp), h⟩
  | cons u ts ih =>
    obtain ⟨hle, hrest⟩ := List.pairwise_cons.mp hsorted
    exact ih (h.filter hr (hle u (by simp))) hrest

/-- The interceptor passes the requests the token bucket admits. -/
theorem passedTimes_serve (h : Limits r i.rateLimiter now) (hr : 1 ≤ r)
    (hsorted : (now :: ts).Pairwise (· ≤ ·)) :
    passedTimes (i.serve ts) = (bucket r).admitted i.rateLimiter.level ts := by
  induction ts generalizing i now with
  | nil => rfl
  | cons t ts ih =>
    obtain ⟨hle, hrest⟩ := List.pairwise_cons.mp hsorted
    have ht : now ≤ t := hle t List.mem_cons_self
    have hih := ih (h.filter hr ht) hrest
    have hserve : i.serve (t :: ts) = (t, (i.filter t).1) :: (i.filter t).2.serve ts := rfl
    by_cases hfree : i.rateLimiter.nextFreeTicket ≤ t
    · rw [admitted_cons_pos ((h.level_nonneg_iff hr ht).mpr hfree)]
      rw [hserve, passedTimes, List.filter_cons_of_pos (by simpa using filter_eq_chain_iff.mpr hfree),
        List.map_cons]
      congr 1
      refine hih.trans ?_
      rw [filter_of_free hfree]
      exact admitted_congr fun u _ => h.level_reserve hr hfree
    · rw [admitted_cons_neg (mt (h.level_nonneg_iff hr ht).mp hfree)]
      rw [hserve, passedTimes,
        List.filter_cons_of_neg (by simpa using mt filter_eq_chain_iff.mp hfree)]
      refine hih.trans ?_
      rw [filter_of_not_free hfree]

/-- Whatever is not handed to the chain is answered with 429. -/
theorem serve_status (x : ℚ × Filtered) (hx : x ∈ i.serve ts) (hchain : x.2 ≠ .chain) :
    x.2 = .status HttpStatus.rateLimited := by
  induction ts generalizing i with
  | nil => cases hx
  | cons t ts ih =>
    rcases List.mem_cons.mp hx with rfl | hx
    · have hfree := mt filter_eq_chain_iff.mpr hchain
      show (i.filter t).1 = _
      rw [filter_of_not_free hfree]
    · exact ih hx

/-! ## Bursts -/

/-- When more than `n` requests pass in a window, the first of them is followed by `n` others. -/
theorem exists_first_passed {n : ℕ} {hi : ℚ} (h : n < passed lo hi (i.serve ts)) :
    ∃ pre t post, ts = pre ++ t :: post ∧ ((i.after pre).filter t).1 = .chain ∧ lo ≤ t ∧
      n ≤ passed lo hi (((i.after pre).filter t).2.serve post) := by
  induction ts generalizing i with
  | nil => exact absurd h (Nat.not_lt_zero n)
  | cons t ts ih =>
    by_cases hfirst : (i.filter t).1 = .chain ∧ lo ≤ t ∧ t < hi
    · refine ⟨[], t, ts, rfl, hfirst.1, hfirst.2.1, ?_⟩
      have hone : passed lo hi (i.serve (t :: ts)) ≤ passed lo hi ((i.filter t).2.serve ts) + 1 := by
        show List.countP _ (_ :: _) ≤ _
        rw [List.countP_cons]
        split <;> simp [passed]
      have : passed lo hi (((i.after []).filter t).2.serve ts) =
        passed lo hi ((i.filter t).2.serve ts) := rfl
      omega
    · have hrest : passed lo hi (i.serve (t :: ts)) = passed lo hi ((i.filter t).2.serve ts) := by
        refine List.countP_cons_of_neg ?_
        simpa using hfirst
      obtain ⟨pre, t', post, rfl, hchain, hlo, hn⟩ := ih (hrest ▸ h)
      exact ⟨t :: pre, t', post, rfl, hchain, hlo, hn⟩

/-- In a sorted list with at least `k + 1` elements below `hi`, the `k`-th element is below `hi`. -/
theorem getElem_lt_of_lt_countP {us : List ℚ} {hi : ℚ} {k : ℕ} (hsorted : us.Pairwise (· ≤ ·))
    (hcount : k < us.countP fun u => decide (lo ≤ u ∧ u < hi)) (hk : k < us.length) :
    us[k] < hi := by
  by_contra hlate
  have hdrop : (us.drop k).countP (fun u => decide (lo ≤ u ∧ u < hi)) = 0 := by
    refine List.countP_eq_zero.mpr fun u hu => ?_
    have hle : us[k] ≤ u := by
      rw [List.drop_eq_getElem_cons hk] at hu
      rcases List.mem_cons.mp hu with rfl | hu
      · exact le_rfl
      · have hpair := hsorted.sublist (List.drop_sublist k us)
        rw [List.drop_eq_getElem_cons hk] at hpair
        exact (List.pairwise_cons.mp hpair).1 u hu
    simp only [decide_eq_true_eq, not_and]
    intro _
    linarith
  have htake : (us.take k).countP (fun u => decide (lo ≤ u ∧ u < hi)) ≤ k :=
    List.countP_le_length.trans (List.length_take_le k us)
  rw [← List.take_append_drop k us, List.countP_append, hdrop] at hcount
  omega

/-- After a request at `t` has passed, the bucket goes on from its charged level. -/
theorem passed_after (h : Limits r i.rateLimiter now) (hr : 1 ≤ r)
    (hsorted : (now :: t :: ts).Pairwise (· ≤ ·)) (hfree : i.rateLimiter.nextFreeTicket ≤ t) :
    passedTimes ((i.filter t).2.serve ts) =
      (bucket r).admitted ((bucket r).charge i.rateLimiter.level t) ts := by
  obtain ⟨hle, hrest⟩ := List.pairwise_cons.mp hsorted
  have ht : now ≤ t := hle t List.mem_cons_self
  rw [passedTimes_serve (h.filter hr ht) hr hrest, filter_of_free hfree]
  exact admitted_congr fun u _ => h.level_reserve hr hfree

/-- The permits of the requests that pass after the first one have been earned or stored. -/
theorem burst_of_passed (h : Limits r i.rateLimiter now) (hr : 1 ≤ r) (hlo : lo ≤ t)
    (hsorted : (now :: t :: ts).Pairwise (· ≤ ·)) (hfree : i.rateLimiter.nextFreeTicket ≤ t)
    (hcount : r ≤ passed lo (lo + 1) ((i.filter t).2.serve ts)) : Burst r i.rateLimiter t ts := by
  have hrate : (0 : ℚ) < r := by exact_mod_cast hr
  rw [passed_eq_countP, passed_after h hr hsorted hfree] at hcount
  set level := (bucket r).charge i.rateLimiter.level t with hlevel
  have hsub : ((bucket r).admitted level ts).Sublist ts := admitted_sublist
  have hadmitted := ((hsorted.tail).tail).sublist hsub
  have hlen : r ≤ ((bucket r).admitted level ts).length := hcount.trans List.countP_le_length
  refine ⟨hfree, ((bucket r).admitted level ts).take r, (List.take_sublist r _).trans hsub,
    List.length_take_of_le hlen, fun k hk => ?_⟩
  have hkr : k < r := by rwa [List.length_take_of_le hlen] at hk
  have hka : k < ((bucket r).admitted level ts).length := hkr.trans_le hlen
  rw [List.getElem_take]
  have hbefore := getElem_lt_of_lt_countP hadmitted (hkr.trans_le hcount) hka
  refine ⟨by linarith, ?_⟩
  have hpaid : (k : ℚ) ≤ (bucket r).levelAt i.rateLimiter.level t - 1 +
      r * (((bucket r).admitted level ts)[k] - t) := admitted_paid (B := bucket r) k hka
  rw [h.resync_storedPermits hfree, h.interval, ← le_sub_iff_add_le', mul_one_div, div_le_iff₀ hrate]
  linarith

/-- A burst gets through: with its first request, more than `r` requests pass within the second. -/
theorem passed_of_burst (h : Limits r i.rateLimiter now) (hr : 1 ≤ r)
    (hsorted : (now :: t :: ts).Pairwise (· ≤ ·)) (hburst : Burst r i.rateLimiter t ts) :
    r < passed t (t + 1) (i.serve (t :: ts)) := by
  have hrate : (0 : ℚ) < r := by exact_mod_cast hr
  obtain ⟨hfree, us, hsub, hlen, hus⟩ := hburst
  have htimes : ∀ u ∈ ts, t ≤ u := (List.pairwise_cons.mp hsorted.tail).1
  have hafford : Affordable (bucket r) ((bucket r).charge i.rateLimiter.level t) us := by
    intro k hk
    have hearned := (hus k hk).2
    rw [h.resync_storedPermits hfree, h.interval, ← le_sub_iff_add_le', mul_one_div,
      div_le_iff₀ hrate] at hearned
    have hcap : (k : ℚ) ≤ r := by exact_mod_cast (hlen ▸ hk).le
    refine le_min hcap ?_
    show (k : ℚ) ≤ (bucket r).levelAt i.rateLimiter.level t - 1 + r * (us[k] - t)
    linarith
  have hbefore : ∀ u ∈ us, u < t + 1 := by
    intro u hu
    obtain ⟨k, hk, rfl⟩ := List.getElem_of_mem hu
    exact (hus k hk).1
  have hlater : ts.Pairwise (· ≤ ·) := hsorted.tail.tail
  have hmany := length_le_countP_admitted (Nat.cast_nonneg r) hlater hsub hafford (t + 1) hbefore
  have hfirst : (i.filter t).1 = .chain := filter_eq_chain_iff.mpr hfree
  have hserve : passed t (t + 1) (i.serve (t :: ts)) =
      passed t (t + 1) ((i.filter t).2.serve ts) + 1 := by
    refine List.countP_cons_of_pos ?_
    simp [hfirst]
  have hcount : (passedTimes ((i.filter t).2.serve ts)).countP (fun u => decide (u < t + 1)) ≤
      passed t (t + 1) ((i.filter t).2.serve ts) := by
    rw [passed_eq_countP, passed_after h hr hsorted hfree]
    refine List.countP_mono_left fun u hu hlt => ?_
    simpa using ⟨htimes u (admitted_sublist.subset hu), by simpa using hlt⟩
  rw [passed_after h hr hsorted hfree] at hcount
  omega

/-! ## Throttling -/

theorem serve_append {us : List ℚ} : i.serve (ts ++ us) = i.serve ts ++ (i.after ts).serve us := by
  induction ts generalizing i with
  | nil => rfl
  | cons t ts ih =>
    show _ :: (i.filter t).2.serve (ts ++ us) = _
    rw [ih]
    rfl

/-- At most `r` requests pass within any second exactly when no burst meets the stored permits. -/
theorem throttled_iff (r : ℕ) (hr : 1 ≤ r) (arrivals : List ℚ) (hstart : ∀ t ∈ arrivals, 0 ≤ t)
    (hsorted : arrivals.Pairwise (· ≤ ·)) :
    Throttled r arrivals ↔ ¬ ∃ pre t post, arrivals = pre ++ t :: post ∧
      Burst r ((ThrottlingInterceptor.init r).after pre).rateLimiter t post := by
  have hzero : ((0 : ℚ) :: arrivals).Pairwise (· ≤ ·) := List.pairwise_cons.mpr ⟨hstart, hsorted⟩
  have hinit : Limits r (ThrottlingInterceptor.init r).rateLimiter 0 := limits_create
  -- the limiter before the request at `t`
  have hbefore : ∀ {pre t post}, arrivals = pre ++ t :: post → ∃ now,
      Limits r ((ThrottlingInterceptor.init r).after pre).rateLimiter now ∧
      (now :: t :: post).Pairwise (· ≤ ·) := by
    rintro pre t post rfl
    have hprefix : (0 :: (pre ++ [t])).Pairwise (· ≤ ·) :=
      hzero.sublist ((List.Sublist.append_left (by simp) pre).cons_cons 0)
    obtain ⟨now, hle, hlimits⟩ := hinit.after hr hprefix
    refine ⟨now, hlimits, List.pairwise_cons.mpr ⟨?_, (List.pairwise_append.mp hsorted).2.1⟩⟩
    intro u hu
    rcases List.mem_cons.mp hu with rfl | hu
    · exact hle
    · exact hle.trans ((List.pairwise_cons.mp (List.pairwise_append.mp hsorted).2.1).1 u hu)
  constructor
  · rintro hthrottled ⟨pre, t, post, heq, hburst⟩
    obtain ⟨now, hlimits, htail⟩ := hbefore heq
    have hmany := passed_of_burst hlimits hr htail hburst
    have hcount := (hthrottled t).1
    rw [heq, serve_append, passed, List.countP_append] at hcount
    rw [passed] at hmany
    omega
  · intro hquiet lo
    refine ⟨?_, fun x hx _ _ hchain => serve_status x hx hchain⟩
    by_contra hmany
    obtain ⟨pre, t, post, heq, hchain, hlo, hcount⟩ := exists_first_passed (not_le.mp hmany)
    obtain ⟨now, hlimits, htail⟩ := hbefore heq
    exact hquiet ⟨pre, t, post, heq,
      burst_of_passed hlimits hr hlo htail (filter_eq_chain_iff.mp hchain) hcount⟩

/-- Two requests, half a second apart, that meet a second's worth of stored permits. -/
theorem not_throttled_idleFiveSeconds : ¬ Throttled 1 [5, 11 / 2] := by
  intro h
  have hcount := (h 5).1
  revert hcount
  decide +kernel

/-- A request every second, the first after five idle seconds. -/
theorem throttled_iff_everySecond : Throttled 1 [5, 6, 7] ↔
    ¬ ∃ pre t post, [5, 6, 7] = pre ++ t :: post ∧
      Burst 1 ((ThrottlingInterceptor.init 1).after pre).rateLimiter t post :=
  throttled_iff 1 le_rfl [5, 6, 7] (by decide +kernel) (by decide +kernel)

end PingPong.Pong
