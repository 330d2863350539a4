import Mathlib.Algebra.Group.Nat.Defs
import PoolControl.Duration

/-! Durations as numbers of nanoseconds.

A product is put together from two words with a carry between them. `exactSteps` says that every
word on the way holds the number it stands for, so that multiplication is exact up to the longest
duration (`toNanos_scale`). Both words of a duration can be read off its number of nanoseconds
(`secs_eq`, `nanos_eq`). -/
namespace PoolControl.Duration

theorem toNanos_ofSecs (s : UInt64) : (ofSecs s).toNanos = s.toNat * 1000000000 := by
  simp [ofSecs, toNanos]

theorem toNanos_ofMillis (ms : UInt64) : (ofMillis ms).toNanos = ms.toNat * 1000000 := by
  simp only [ofMillis, toNanos, UInt64.toNat_div, UInt32.toNat_mul, UInt64.toNat_toUInt32,
    UInt64.toNat_mod, UInt64.reduceToNat, UInt32.reduceToNat]
  omega

theorem toNanos_longest : longest.toNanos = 18446744073709551616 * 1000000000 - 1 := rfl

theorem secs_eq (d : Duration) : d.secs.toNat = d.toNanos / 1000000000 := by
  have nanos := d.nanos_lt
  rw [toNanos]
  omega

theorem nanos_eq (d : Duration) : d.nanos.toNat = d.toNanos % 1000000000 := by
  have nanos := d.nanos_lt
  rw [toNanos]
  omega

theorem toNanos_le_longest (d : Duration) : d.toNanos ≤ longest.toNanos := by
  have secs := d.secs.toNat_lt
  have nanos := d.nanos_lt
  rw [toNanos_longest, toNanos]
  omega

/-! ### Products -/

/-- Every word on the way to `n` times the duration holds the number it stands for. The seconds
are put together only if the product is not too long. -/
structure ExactSteps (d : Duration) (n : UInt32) : Prop where
  remainders : (d.remainders n).toNat = d.nanos.toNat * n.toNat
  carry : (d.remainders n / 1000000000).toNat = d.nanos.toNat * n.toNat / 1000000000
  left : (d.remainders n % 1000000000).toUInt32.toNat = d.nanos.toNat * n.toNat % 1000000000
  whole : d.toNanos * n.toNat ≤ longest.toNanos →
    (d.secs * n.toUInt64).toNat = d.secs.toNat * n.toNat
  seconds : d.toNanos * n.toNat ≤ longest.toNanos →
    (d.secs * n.toUInt64 + d.remainders n / 1000000000).toNat =
      d.secs.toNat * n.toNat + d.nanos.toNat * n.toNat / 1000000000
  saturates : longest.toNanos < d.toNanos * n.toNat → d.scale n = longest

theorem toNanos_mul (d : Duration) (n : Nat) :
    d.toNanos * n = d.secs.toNat * n * 1000000000 + d.nanos.toNat * n := by
  rw [toNanos, Nat.add_mul, Nat.mul_right_comm]

/-- A product is too long exactly if its seconds do not fit into their word. -/
theorem mul_le_longest_iff (d : Duration) (n : Nat) :
    d.toNanos * n ≤ longest.toNanos ↔
      d.secs.toNat * n + d.nanos.toNat * n / 1000000000 < 18446744073709551616 := by
  rw [toNanos_mul, toNanos_longest]
  omega

theorem exactSteps (d : Duration) (n : UInt32) : d.ExactSteps n := by
  have carry : (d.remainders n / 1000000000).toNat = d.nanos.toNat * n.toNat / 1000000000 := by
    rw [UInt64.toNat_div, toNat_remainders]
    rfl
  have whole (short : d.toNanos * n.toNat ≤ longest.toNanos) :
      (d.secs * n.toUInt64).toNat = d.secs.toNat * n.toNat := by
    have fits := (mul_le_longest_iff d n.toNat).mp short
    rw [UInt64.toNat_mul, UInt32.toNat_toUInt64]
    exact Nat.mod_eq_of_lt (Nat.lt_of_le_of_lt (Nat.le_add_right _ _) fits)
  refine ⟨toNat_remainders d n, carry, ?_, whole, fun short => ?_, fun long => ?_⟩
  · rw [UInt64.toNat_toUInt32, UInt64.toNat_mod, toNat_remainders]
    exact Nat.mod_eq_of_lt (Nat.lt_trans (Nat.mod_lt _ (by decide)) (by decide))
  · rw [UInt64.toNat_add, whole short, carry]
    exact Nat.mod_eq_of_lt ((mul_le_longest_iff d n.toNat).mp short)
  · have overflow := mt (mul_le_longest_iff d n.toNat).mpr (Nat.not_le.mpr long)
    rw [scale, carry, if_neg overflow]

/-- Multiplication is exact up to the longest duration. -/
theorem toNanos_scale (d : Duration) (n : UInt32) :
    (d.scale n).toNanos = min (d.toNanos * n.toNat) longest.toNanos := by
  have exact := exactSteps d n
  by_cases short : d.toNanos * n.toNat ≤ longest.toNanos
  · have fits := (mul_le_longest_iff d n.toNat).mp short
    rw [Nat.min_eq_left short, scale, exact.carry, if_pos fits, toNanos, exact.seconds short,
      exact.left, toNanos_mul]
    omega
  · rw [exact.saturates (Nat.not_le.mp short), Nat.min_eq_right (Nat.le_of_not_le short)]

end PoolControl.Duration
