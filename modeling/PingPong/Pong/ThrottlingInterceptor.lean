import PingPong.Common.Constant
import Mathlib.Algebra.Field.Rat
import Mathlib.Algebra.Order.Ring.Rat

/-!
# The throttle of Pong

`ThrottlingInterceptor` lets a request through to the filter chain when Guava's `RateLimiter` grants
it a permit, and answers 429 otherwise. Times are in seconds. Times and permits are exact rational numbers,
where Guava computes permits in doubles and cuts the time that a permit costs to whole microseconds: everything
that is proved of the throttle is proved of this exact limiter.
-/

namespace PingPong.Pong

/-! ## Guava's bursty rate limiter -/

/-- `maxPermits` is one second's worth of permits, `stableInterval` the time one permit takes. All are exact,
where Guava has doubles and, for `nextFreeTicket`, whole microseconds. -/
structure RateLimiter where
  maxPermits : ℚ
  stableInterval : ℚ
  storedPermits : ℚ
  nextFreeTicket : ℚ
  deriving DecidableEq, Repr

namespace RateLimiter

/-- No permit is stored at first. The interval is exact, where Guava rounds it to a double. -/
def create (permitsPerSecond : ℚ) : RateLimiter where
  maxPermits := permitsPerSecond
  stableInterval := 1 / permitsPerSecond
  storedPermits := 0
  nextFreeTicket := 0

/-- Idle time is stored as permits, exactly, where Guava adds in doubles. -/
def resync (l : RateLimiter) (now : ℚ) : RateLimiter :=
  if l.nextFreeTicket < now then
    { l with
      storedPermits :=
        min l.maxPermits (l.storedPermits + (now - l.nextFreeTicket) / l.stableInterval)
      nextFreeTicket := now }
  else l

/-- Takes one permit. What is not stored is fresh, and the next request waits for it, exactly as long as it
takes, where Guava cuts the wait to whole microseconds. -/
def reserve (l : RateLimiter) (now : ℚ) : RateLimiter :=
  let l := l.resync now
  let storedPermitsToSpend := min 1 l.storedPermits
  let freshPermits := 1 - storedPermitsToSpend
  { l with
    nextFreeTicket := l.nextFreeTicket + freshPermits * l.stableInterval
    storedPermits := l.storedPermits - storedPermitsToSpend }

def tryAcquire (l : RateLimiter) (now : ℚ) : Bool × RateLimiter :=
  if l.nextFreeTicket ≤ now then (true, l.reserve now) else (false, l)

end RateLimiter

/-! ## The filter -/

/-- A request is handed to the filter chain, or answered with a status code. -/
inductive Filtered
  | chain
  | status (code : Int)
  deriving DecidableEq, Repr

structure ThrottlingInterceptor where
  rateLimiter : RateLimiter
  deriving DecidableEq, Repr

namespace ThrottlingInterceptor

def init (rateLimite : ℕ) : ThrottlingInterceptor where
  rateLimiter := .create rateLimite

/-- The fate of a request that arrives at time `now`. -/
def filter (i : ThrottlingInterceptor) (now : ℚ) : Filtered × ThrottlingInterceptor :=
  let (acquired, limiter) := i.rateLimiter.tryAcquire now
  (if acquired then .chain else .status HttpStatus.rateLimited, { i with rateLimiter := limiter })

/-- The fates of the requests that arrive at the given times, in this order. -/
def serve (i : ThrottlingInterceptor) : List ℚ → List (ℚ × Filtered)
  | [] => []
  | now :: arrivals => (now, (i.filter now).1) :: (i.filter now).2.serve arrivals

/-- The interceptor after requests at the given times. -/
def after (i : ThrottlingInterceptor) (arrivals : List ℚ) : ThrottlingInterceptor :=
  arrivals.foldl (fun i now => (i.filter now).2) i

end ThrottlingInterceptor

/-! ## Throttling to a rate -/

/-- The number of requests that arrive in `[lo, hi)` and are handed to the chain. -/
def passed (lo hi : ℚ) (served : List (ℚ × Filtered)) : ℕ :=
  served.countP fun x => decide (x.2 = .chain) && decide (lo ≤ x.1 ∧ x.1 < hi)

/-- With the rate `r`, at most `r` of the requests at these times are handed to the chain within any
second, and the others are answered with 429. -/
def Throttled (r : ℕ) (arrivals : List ℚ) : Prop :=
  ∀ lo : ℚ,
    passed lo (lo + 1) ((ThrottlingInterceptor.init r).serve arrivals) ≤ r ∧
    ∀ x ∈ (ThrottlingInterceptor.init r).serve arrivals, lo ≤ x.1 → x.1 < lo + 1 →
      x.2 ≠ .chain → x.2 = .status HttpStatus.rateLimited

/-- A request at `now` finds the limiter free, with some permits stored, and `r` of the requests
`later` arrive within a second of it, each after its permit has been earned or stored: the `k`-th not
before `now + (k - storedPermits) / r`. -/
structure Burst (r : ℕ) (l : RateLimiter) (now : ℚ) (later : List ℚ) : Prop where
  free : l.nextFreeTicket ≤ now
  followers : ∃ us : List ℚ, us.Sublist later ∧ us.length = r ∧
    ∀ (k : ℕ) (hk : k < us.length), us[k] < now + 1 ∧
      now + (k + 1 - (l.resync now).storedPermits) * l.stableInterval ≤ us[k]

end PingPong.Pong
