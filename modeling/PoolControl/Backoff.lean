import PoolControl.Duration
import PoolControl.OrderedMap

/-! Exponential backoff per key.

A policy starts at a base delay, doubles it with every further attempt and never exceeds
a ceiling. The doubling factor is a 32-bit number that stays at its maximum once it is
reached. A failure count per key says how often the key failed since it was last
forgotten, and every failure waits for the delay of the count before it. -/
namespace PoolControl

/-- First delay and ceiling. -/
structure Backoff.Policy where
  base : Duration
  ceiling : Duration
deriving DecidableEq

/-- The failure counts of a queue's keys. A key that is not bound has not failed. -/
structure Backoff (K : Type) [Ord K] where
  policy : Backoff.Policy
  counts : OrderedMap K UInt32

namespace Backoff

/-- The largest factor, and the largest failure count. -/
def limit : UInt32 := 4294967295

/-- `2 ^ n`, or the largest factor if that is larger. -/
def factor (n : UInt32) : UInt32 := if n < 32 then 1 <<< n else limit

/-- The delay before retry `n`, counted from zero. -/
def Policy.delay (p : Policy) (n : UInt32) : Duration := min (p.base.scale (factor n)) p.ceiling

/-- A tenth of a second at first, half a minute at most. -/
instance : Inhabited Policy := ⟨⟨Duration.ofMillis 100, Duration.ofSecs 30⟩⟩

variable {K : Type} [Ord K] [Std.TransOrd K] [Std.LawfulEqOrd K]

omit [Std.TransOrd K] [Std.LawfulEqOrd K] in
/-- No failures yet. -/
def ofPolicy (p : Policy) : Backoff K := ⟨p, ∅⟩

/-- Failures of `k` since it was last forgotten. -/
def failures (b : Backoff K) (k : K) : UInt32 := b.counts.getD k 0

/-- How long to wait after the next failure of `k`. -/
def nextDelay (b : Backoff K) (k : K) : Duration := b.policy.delay (b.failures k)

/-- Counts a failure of `k`. -/
def fail (b : Backoff K) (k : K) : Backoff K :=
  let n := b.failures k
  { b with counts := b.counts.insert k (if n = limit then n else n + 1) }

/-- Starts the count of `k` over. -/
def forget (b : Backoff K) (k : K) : Backoff K := { b with counts := b.counts.erase k }

end Backoff

end PoolControl
