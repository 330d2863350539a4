import Mathlib.Algebra.Group.Nat.Defs
import PoolControl.Config
import PoolControl.Proofs.Duration

/-! How long failed keys wait.

Read in nanoseconds, a delay is the base times a factor that doubles with every attempt, cut
off at the ceiling (`toNanos_delay`), and no word overflows on the way to it (`delay_exact`). The
factor doubles 31 times and is at its limit from attempt 32 on, so the delays grow to the ceiling
only if the base is not too small for it (`reaches_iff`). `delays_grow` says what the settings that
are accepted come to. -/
namespace PoolControl

namespace Backoff

/-- The factor doubles until it reaches its limit. -/
theorem toNat_factor (n : UInt32) : (factor n).toNat = min (2 ^ n.toNat) 4294967295 := by
  unfold factor
  split
  · rename_i small
    have below : n.toNat < 32 := UInt32.lt_iff_toNat_lt.mp small
    have bound : 2 ^ n.toNat ≤ 2 ^ 31 := Nat.pow_le_pow_right (by decide) (by omega)
    have one : (1 : UInt32).toNat = 1 := rfl
    rw [UInt32.toNat_shiftLeft, Nat.shiftLeft_eq, one, Nat.mod_eq_of_lt below]
    omega
  · rename_i large
    have above : ¬ n.toNat < 32 := fun below => large (UInt32.lt_iff_toNat_lt.mpr below)
    have bound : 2 ^ 32 ≤ 2 ^ n.toNat := Nat.pow_le_pow_right (by decide) (by omega)
    rw [show limit.toNat = 4294967295 from rfl]
    omega

/-- The power is exact as long as it fits into its word. -/
theorem toNat_factor_of_lt {n : UInt32} (h : n < 32) : (factor n).toNat = 2 ^ n.toNat := by
  have bound : 2 ^ n.toNat ≤ 2 ^ 31 :=
    Nat.pow_le_pow_right (by decide) (Nat.le_of_lt_succ (UInt32.lt_iff_toNat_lt.mp h))
  rw [toNat_factor]
  omega

theorem factor_mono {m n : UInt32} (h : m ≤ n) : (factor m).toNat ≤ (factor n).toNat := by
  have doubled : 2 ^ m.toNat ≤ 2 ^ n.toNat :=
    Nat.pow_le_pow_right (by decide) (UInt32.le_iff_toNat_le.mp h)
  rw [toNat_factor, toNat_factor]
  omega

theorem factor_pos (n : UInt32) : 0 < (factor n).toNat := by
  have doubled : 0 < 2 ^ n.toNat := Nat.two_pow_pos _
  rw [toNat_factor]
  omega

/-- Late attempts all have the largest factor. -/
theorem factor_of_le {n : UInt32} (h : 32 ≤ n) : factor n = limit :=
  if_neg (UInt32.not_lt.mpr h)

namespace Policy

variable (p : Policy)

/-- **A delay is the base times the factor of the attempt, or the ceiling if that is less.** -/
theorem toNanos_delay (n : UInt32) :
    (p.delay n).toNanos = min (p.base.toNanos * (factor n).toNat) p.ceiling.toNanos := by
  have most := p.ceiling.toNanos_le_longest
  rw [delay, Duration.toNanos_min, Duration.toNanos_scale]
  omega

/-- A longer base, a higher ceiling and a later attempt make no delay shorter. -/
theorem delay_le_delay {p q : Policy} {m n : UInt32} (base : p.base.toNanos ≤ q.base.toNanos)
    (ceiling : p.ceiling.toNanos ≤ q.ceiling.toNanos) (h : m ≤ n) :
    (p.delay m).toNanos ≤ (q.delay n).toNanos := by
  have more := Nat.mul_le_mul base (factor_mono h)
  rw [toNanos_delay, toNanos_delay]
  omega

theorem delay_mono {m n : UInt32} (h : m ≤ n) : (p.delay m).toNanos ≤ (p.delay n).toNanos :=
  delay_le_delay (Nat.le_refl _) (Nat.le_refl _) h

theorem delay_le_ceiling (n : UInt32) : (p.delay n).toNanos ≤ p.ceiling.toNanos := by
  rw [toNanos_delay]
  exact Nat.min_le_right _ _

/-- A delay is nothing only if the base or the ceiling is. -/
theorem delay_pos_iff (n : UInt32) :
    0 < (p.delay n).toNanos ↔ 0 < p.base.toNanos ∧ 0 < p.ceiling.toNanos := by
  rw [toNanos_delay, Nat.lt_min, Nat.mul_pos_iff_of_pos_right (factor_pos n)]

/-- From attempt 32 on delays do not change any more. -/
theorem delay_of_le {n : UInt32} (h : 32 ≤ n) :
    (p.delay n).toNanos = min (p.base.toNanos * 4294967295) p.ceiling.toNanos := by
  rw [toNanos_delay, factor_of_le h]
  rfl

theorem delay_eq_ceiling_iff (n : UInt32) :
    p.delay n = p.ceiling ↔ p.ceiling.toNanos ≤ p.base.toNanos * (factor n).toNat := by
  rw [← Duration.toNanos_inj, toNanos_delay]
  omega

/-- **The delays reach the ceiling exactly if the largest factor takes the base there.** -/
theorem reaches_iff :
    (∃ n, ∀ m, n ≤ m → p.delay m = p.ceiling) ↔
      p.ceiling.toNanos ≤ p.base.toNanos * 4294967295 := by
  have late (m : UInt32) (h : 32 ≤ m) :
      p.delay m = p.ceiling ↔ p.ceiling.toNanos ≤ p.base.toNanos * 4294967295 := by
    rw [delay_eq_ceiling_iff, factor_of_le h]
    rfl
  constructor
  · rintro ⟨n, from_⟩
    have last : n ≤ limit := UInt32.le_iff_toNat_le.mpr (Nat.le_of_lt_succ n.toNat_lt)
    exact (late limit (by decide)).mp (from_ limit last)
  · intro enough
    exact ⟨32, fun m h => (late m h).mpr enough⟩

/-- The base is doubled with every attempt as long as the factor is below its limit, and after
that as well if the ceiling is reached by then. -/
theorem toNanos_delay_doubled {n : UInt32}
    (h : n ≤ 31 ∨ p.ceiling.toNanos ≤ p.base.toNanos * (2 ^ 32 - 1)) :
    (p.delay n).toNanos = min (p.base.toNanos * 2 ^ n.toNat) p.ceiling.toNanos := by
  rw [toNanos_delay]
  by_cases late : 32 ≤ n
  · have reached : p.ceiling.toNanos ≤ p.base.toNanos * (2 ^ 32 - 1) := by
      refine h.resolve_left fun early => ?_
      exact absurd (UInt32.le_trans late early) (by decide)
    have doubled : 2 ^ 32 ≤ 2 ^ n.toNat :=
      Nat.pow_le_pow_right (by decide) (UInt32.le_iff_toNat_le.mp late)
    have more : p.base.toNanos * (2 ^ 32 - 1) ≤ p.base.toNanos * 2 ^ n.toNat :=
      Nat.mul_le_mul_left _ (by omega)
    rw [factor_of_le late, Nat.min_eq_right (Nat.le_trans reached more)]
    exact Nat.min_eq_right reached
  · rw [toNat_factor_of_lt (UInt32.not_le.mp late)]

/-- The delay in unbounded numbers of nanoseconds. -/
def exactDelay (n : UInt32) : Nat :=
  min (p.base.toNanos * min (2 ^ n.toNat) (2 ^ 32 - 1)) p.ceiling.toNanos

/-- **A delay is computed exactly.** Both of its words are those of the base times the saturated
power of two, cut off at the ceiling, in unbounded numbers, and on the way to them no word
overflows: neither the power nor a step of the product. -/
theorem delay_exact (n : UInt32) :
    (p.delay n).toNanos = p.exactDelay n ∧
      (p.delay n).secs.toNat = p.exactDelay n / 1000000000 ∧
      (p.delay n).nanos.toNat = p.exactDelay n % 1000000000 ∧
      (n ≤ 31 ∨ p.ceiling.toNanos ≤ p.base.toNanos * (2 ^ 32 - 1) →
        (p.delay n).toNanos = min (p.base.toNanos * 2 ^ n.toNat) p.ceiling.toNanos) ∧
      (p.delay n).toNanos ≤ p.ceiling.toNanos ∧
      (∀ (q : Policy) (m : UInt32), p.base.toNanos ≤ q.base.toNanos →
        p.ceiling.toNanos ≤ q.ceiling.toNanos → n ≤ m →
        (p.delay n).toNanos ≤ (q.delay m).toNanos) ∧
      (n < 32 → (factor n).toNat = 2 ^ n.toNat) ∧ (32 ≤ n → factor n = limit) ∧
      p.base.ExactSteps (factor n) := by
  have value : (p.delay n).toNanos = p.exactDelay n := by
    rw [toNanos_delay, toNat_factor]
    rfl
  refine ⟨value, ?_, ?_, p.toNanos_delay_doubled, p.delay_le_ceiling n,
    fun q m => delay_le_delay, toNat_factor_of_lt, factor_of_le, p.base.exactSteps (factor n)⟩
  · rw [Duration.secs_eq, value]
  · rw [Duration.nanos_eq, value]

end Policy

end Backoff

/-! ### The settings -/

/-- What a computation with errors that succeeds consists of. -/
theorem Except.ok_of_bind {ε α β : Type} {x : Except ε α} {f : α → Except ε β} {b : β}
    (h : (x >>= f) = .ok b) : ∃ a, x = .ok a ∧ f a = .ok b := by
  cases x with
  | error e => cases h
  | ok a => exact ⟨a, rfl, h⟩

namespace Config

variable {lookup : String → Option String} {c : Config}

/-- Settings that are accepted have a ceiling that is not below the base. -/
theorem backoff_of_read (h : read lookup = .ok c) :
    ∃ base ceiling : UInt64, number lookup .backoffBase = .ok base ∧
      number lookup .backoffCeiling = .ok ceiling ∧
      c.options.backoff = ⟨.ofMillis base, .ofSecs ceiling⟩ ∧
      base.toNat ≤ ceiling.toNat * 1000 := by
  obtain ⟨n, -, h⟩ := Except.ok_of_bind h
  by_cases nobody : n = 0
  · rw [if_pos nobody] at h
    cases h
  rw [if_neg nobody] at h
  obtain ⟨base, base_read, h⟩ := Except.ok_of_bind h
  obtain ⟨ceiling, ceiling_read, h⟩ := Except.ok_of_bind h
  by_cases below : (Duration.ofSecs ceiling).lt (.ofMillis base) = true
  · rw [if_pos below] at h
    cases h
  rw [if_neg below] at h
  obtain ⟨drain, -, h⟩ := Except.ok_of_bind h
  cases h
  refine ⟨base, ceiling, base_read, ceiling_read, rfl, ?_⟩
  rw [Duration.lt_iff_toNanos, Duration.toNanos_ofSecs, Duration.toNanos_ofMillis] at below
  omega

/-- **Whatever settings are accepted, failed keys wait longer and longer up to the ceiling.** They
wait at all unless the base is zero, and in the end as long as the ceiling unless the base is so
small that even the largest factor does not take it there. -/
theorem delays_grow (h : read lookup = .ok c) :
    ∃ base ceiling : UInt64, number lookup .backoffBase = .ok base ∧
      number lookup .backoffCeiling = .ok ceiling ∧
      let p := c.options.backoff
      p.ceiling = .ofSecs ceiling ∧
      (∀ n, 0 < (p.delay n).toNanos ↔ base ≠ 0) ∧
      (∀ m n, m ≤ n → (p.delay m).toNanos ≤ (p.delay n).toNanos) ∧
      (∀ n, (p.delay n).toNanos ≤ p.ceiling.toNanos) ∧
      (∀ n, 32 ≤ n → (p.delay n).toNanos =
        min (base.toNat * 1000000 * 4294967295) (ceiling.toNat * 1000000000)) ∧
      ((∃ n, ∀ m, n ≤ m → p.delay m = p.ceiling) ↔
        ceiling.toNat * 1000 ≤ base.toNat * 4294967295) := by
  obtain ⟨base, ceiling, base_read, ceiling_read, same, ordered⟩ := backoff_of_read h
  refine ⟨base, ceiling, base_read, ceiling_read, ?_⟩
  intro p
  have first : p.base.toNanos = base.toNat * 1000000 := by
    rw [show p = _ from same, Duration.toNanos_ofMillis]
  have most : p.ceiling.toNanos = ceiling.toNat * 1000000000 := by
    rw [show p = _ from same, Duration.toNanos_ofSecs]
  refine ⟨by rw [show p = _ from same], fun n => ?_, fun m n => p.delay_mono, p.delay_le_ceiling,
    fun n late => ?_, ?_⟩
  · have zero : base ≠ 0 ↔ base.toNat ≠ 0 := not_congr UInt64.toNat_inj.symm
    rw [p.delay_pos_iff, first, most, zero]
    omega
  · rw [p.delay_of_le late, first, most]
  · rw [p.reaches_iff, first, most]
    omega

/-- A millisecond is enough for a ceiling of 49 days. -/
theorem delays_grow_millisecond :
    let lookup (name : String) : Option String :=
      if name = Number.backoffBase.variableName then some "1"
      else if name = Number.backoffCeiling.variableName then some "4294967" else none
    let c : Config := ⟨"local", false, 5, ⟨.ofMillis 1, .ofSecs 4294967⟩, .ofSecs 30, "info"⟩
    read lookup = .ok c ∧ (∀ n, 0 < (c.options.backoff.delay n).toNanos) ∧
      ∃ n, ∀ m, n ≤ m → c.options.backoff.delay m = .ofSecs 4294967 := by
  intro lookup c
  have accepted : read lookup = .ok c := by rfl
  obtain ⟨base, ceiling, base_read, ceiling_read, _, waits, _, _, _, reaches⟩ :=
    delays_grow accepted
  have one : base = 1 := (Except.ok.inj (base_read.symm.trans (by rfl)))
  have days : ceiling = 4294967 := (Except.ok.inj (ceiling_read.symm.trans (by rfl)))
  subst one days
  exact ⟨accepted, fun n => (waits n).mpr (by decide), reaches.mpr (by decide)⟩

/-- With a base of zero keys never wait, and a millisecond does not grow to 50 days. -/
theorem delays_stay_below :
    let without (name : String) : Option String :=
      if name = Number.backoffBase.variableName then some "0" else none
    let short (name : String) : Option String :=
      if name = Number.backoffBase.variableName then some "1"
      else if name = Number.backoffCeiling.variableName then some "4320000" else none
    (∃ c, read without = .ok c ∧ ∀ n, (c.options.backoff.delay n).toNanos = 0) ∧
      ∃ c, read short = .ok c ∧
        ∀ n, (c.options.backoff.delay n).toNanos < c.options.backoff.ceiling.toNanos := by
  refine ⟨⟨⟨"local", false, 5, ⟨.ofMillis 0, .ofSecs 300⟩, .ofSecs 30, "info"⟩, rfl, fun n => ?_⟩,
    ⟨"local", false, 5, ⟨.ofMillis 1, .ofSecs 4320000⟩, .ofSecs 30, "info"⟩, rfl, fun n => ?_⟩
  · rw [Backoff.Policy.toNanos_delay]
    simp [options, Duration.toNanos_ofMillis]
  · have most := Backoff.toNat_factor n
    rw [Backoff.Policy.toNanos_delay]
    simp only [options, Duration.toNanos_ofMillis, Duration.toNanos_ofSecs, UInt64.reduceToNat]
    omega

end Config

end PoolControl
