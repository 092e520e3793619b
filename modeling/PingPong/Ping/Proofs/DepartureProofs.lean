import PingPong.Ping.Proofs.RateLimitProofs
import Mathlib.Algebra.Order.Floor.Semiring
import Mathlib.Data.Rat.Floor

/-!
# Proofs: the rate of outgoing requests for shorter calls

A run may be looked at in another unit of time. In the unit of one HTTP call every call takes at least one
unit, so at most `num` requests leave within one (`rateLimited_of_one_le`), and a longer window is a few
of these side by side.
-/

namespace PingPong.Ping

open FileLimitedLock

variable {P T S : Type} {channels : List S} {d k lo mid hi : ℚ} {acts : List (ℚ × Action P T)}
  {ts ts' : TimedState P T S}

/-! ## Units of time -/

/-- The state with its times in another unit. -/
def TimedState.scale (k : ℚ) (ts : TimedState P T S) : TimedState P T S where
  state := ts.state
  clock := k * ts.clock
  left c := k * ts.left c

def scaleLabel (k : ℚ) (x : ℚ × Action P T) : ℚ × Action P T := (k * x.1, x.2)

theorem scale_start : (TimedState.start channels : TimedState P T S).scale k = .start channels := by
  simp [TimedState.scale, TimedState.start]

section

variable [DecidableEq S]

theorem departures_scale (hk : 0 < k) (lo hi : ℚ) (acts : List (ℚ × Action P T)) :
    departures (k * lo) (k * hi) (acts.map (scaleLabel k)) = departures lo hi acts := by
  unfold departures
  rw [List.countP_map]
  refine List.countP_congr fun x _ => ?_
  simp [scaleLabel, hk]

/-- Two windows side by side. -/
theorem departures_add (hlo : lo ≤ mid) (hmid : mid ≤ hi) (acts : List (ℚ × Action P T)) :
    departures lo hi acts = departures lo mid acts + departures mid hi acts := by
  induction acts with
  | nil => rfl
  | cons x acts ih =>
    obtain ⟨t, a⟩ := x
    have hsplit : (if a.isDepart = true ∧ lo ≤ t ∧ t < hi then 1 else 0) =
        (if a.isDepart = true ∧ lo ≤ t ∧ t < mid then 1 else 0) +
          (if a.isDepart = true ∧ mid ≤ t ∧ t < hi then 1 else 0) := by
      by_cases ha : a.isDepart = true
      · by_cases ht : t < mid
        · have hhi : t < hi := ht.trans_le hmid
          have hnot : ¬ mid ≤ t := not_le.mpr ht
          simp [ha, ht, hhi, hnot]
        · have hle : mid ≤ t := not_lt.mp ht
          have hlo' : lo ≤ t := hlo.trans hle
          simp [ha, ht, hle, hlo']
      · simp [ha]
    have hcons : ∀ lo hi : ℚ, departures lo hi ((t, a) :: acts) =
        departures lo hi [(t, a)] + departures lo hi acts :=
      fun lo hi => departures_append [(t, a)] acts
    rw [hcons, hcons, hcons, departures_singleton, departures_singleton, departures_singleton, ih, hsplit]
    omega

theorem departures_mono (h : mid ≤ hi) (acts : List (ℚ × Action P T)) :
    departures lo mid acts ≤ departures lo hi acts := by
  refine List.countP_mono_left fun x _ hx => ?_
  simp only [Bool.and_eq_true, decide_eq_true_eq] at hx ⊢
  exact ⟨hx.1, hx.2.1, hx.2.2.trans_le h⟩

end

variable [DecidableEq P] [DecidableEq T] [DecidableEq S]

/-- Another unit changes no comparison of times. -/
theorem timed_step_scale (hk : 0 < k) {x : ℚ × Action P T}
    (h : (timedMachine P T channels d).step ts x = some ts') :
    (timedMachine P T channels (k * d)).step (ts.scale k) (scaleLabel k x) = some (ts'.scale k) := by
  obtain ⟨t, a⟩ := x
  obtain ⟨hclock, htook, s, hs, rfl⟩ := timed_step_eq_some.mp h
  refine timed_step_eq_some.mpr ⟨mul_le_mul_of_nonneg_left hclock hk.le, ?_, s, hs, ?_⟩
  · cases a with
    | answer c response =>
      have hlong : ts.left c + d ≤ t := by simpa [TimedState.callTook] using htook
      have hscaled : k * ts.left c + k * d ≤ k * t := by
        rw [← mul_add]
        exact mul_le_mul_of_nonneg_left hlong hk.le
      exact decide_eq_true hscaled
    | _ => rfl
  · have hleft : (fun c => k * ts.leftAfter t a c) = (ts.scale k).leftAfter (k * t) a := by
      cases a with
      | depart c =>
        funext c'
        show k * Function.update ts.left c t c' = Function.update (fun c => k * ts.left c) c (k * t) c'
        by_cases hc : c' = c
        · rw [hc, Function.update_self, Function.update_self]
        · rw [Function.update_of_ne hc, Function.update_of_ne hc]
      | _ => rfl
    show (⟨s, k * t, fun c => k * ts.leftAfter t a c⟩ : TimedState P T S) = _
    rw [hleft]
    rfl

theorem timed_run_scale (hk : 0 < k) (h : (timedMachine P T channels d).run ts acts = some ts') :
    (timedMachine P T channels (k * d)).run (ts.scale k) (acts.map (scaleLabel k)) =
      some (ts'.scale k) := by
  induction acts generalizing ts with
  | nil =>
    cases h
    rfl
  | cons x acts ih =>
    obtain ⟨u, hu, hacts⟩ := StepMachine.run_cons_eq_some.mp h
    exact StepMachine.run_cons_eq_some.mpr ⟨u.scale k, timed_step_scale hk hu, ih hacts⟩

/-! ## Windows -/

/-- Within the time that every call takes, at most `num` requests leave. -/
theorem departures_le_num (lockFile : String) (num : ℕ) (hd : 0 < d) {ts : TimedState P T String}
    (h : (timedMachine P T (init lockFile num) d).run (TimedState.start (init lockFile num)) acts = some ts)
    (lo : ℚ) : departures lo (lo + d) acts ≤ num := by
  have hk : 0 < 1 / d := one_div_pos.mpr hd
  have hscaled := timed_run_scale hk h
  rw [scale_start, one_div_mul_cancel hd.ne'] at hscaled
  have hle := rateLimited_of_one_le lockFile num le_rfl P T _ _ hscaled (1 / d * lo)
  have hunit : 1 / d * lo + 1 = 1 / d * (lo + d) := by
    rw [mul_add, one_div_mul_cancel hd.ne']
  rwa [hunit, departures_scale hk] at hle

/-- When every HTTP call takes at least `d` seconds, at most `num` requests leave in each `d` seconds of a
window, the last of them counted in full, whatever the number of processes and threads. -/
theorem departures_le (lockFile : String) (num : ℕ) (d : ℚ) (hd : 0 < d) (acts : List (ℚ × Action P T))
    (ts : TimedState P T String)
    (h : (timedMachine P T (init lockFile num) d).run (TimedState.start (init lockFile num)) acts = some ts)
    (lo w : ℚ) : departures lo (lo + w) acts ≤ num * ⌈w / d⌉₊ := by
  have hwindows : ∀ n : ℕ, departures lo (lo + n * d) acts ≤ num * n := by
    intro n
    induction n with
    | zero =>
      have hnone : departures lo lo acts + departures lo lo acts = departures lo lo acts :=
        (departures_add le_rfl le_rfl acts).symm
      rw [Nat.cast_zero, zero_mul, add_zero]
      omega
    | succ n ih =>
      have hstart : lo ≤ lo + n * d := le_add_of_nonneg_right (mul_nonneg (Nat.cast_nonneg n) hd.le)
      have hnext : lo + ((n + 1 : ℕ) : ℚ) * d = lo + n * d + d := by
        rw [Nat.cast_succ]
        ring
      have hlast := departures_le_num lockFile num hd h (lo + n * d)
      rw [hnext, departures_add hstart (le_add_of_nonneg_right hd.le), Nat.mul_succ]
      exact Nat.add_le_add ih hlast
  have hcovers : w ≤ ⌈w / d⌉₊ * d := (div_le_iff₀ hd).mp (Nat.le_ceil (w / d))
  exact (departures_mono (add_le_add_right hcovers lo) acts).trans (hwindows _)

/-- One call, whose request takes half a second. -/
def halfSecondCall : List (ℚ × Action Unit Unit) :=
  [(0, .call ((), ())), (0, .tryLock ((), ())), (0, .lookup ((), ()) (some (some "Hello"))),
    (0, .depart ((), ())), (1 / 2, .answer ((), ()) none), (1 / 2, .unlock ((), ()))]

theorem departures_le_halfSecondCall : departures 0 (0 + 1) halfSecondCall ≤ 1 * ⌈(1 : ℚ) / (1 / 2)⌉₊ := by
  obtain ⟨ts, hrun⟩ : ∃ ts, (timedMachine Unit Unit (init "lock" 1) (1 / 2)).run
      (TimedState.start (init "lock" 1)) halfSecondCall = some ts :=
    Option.isSome_iff_exists.mp (by decide +kernel)
  exact departures_le "lock" 1 (1 / 2) (by decide +kernel) halfSecondCall ts hrun 0 1

end PingPong.Ping
