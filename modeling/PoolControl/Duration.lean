/-! Lengths of time with nanosecond resolution.

A duration is a 64-bit number of seconds and a remainder below one second. Multiplication
saturates at the longest duration instead of wrapping. `toNanos` reads a duration as one
number, and `le_iff_toNanos` says the order compares these numbers. -/
namespace PoolControl

structure Duration where
  secs : UInt64
  nanos : UInt32
  nanos_lt : nanos.toNat < 1000000000
deriving DecidableEq

namespace Duration

@[ext] theorem ext {a b : Duration} (hs : a.secs = b.secs) (hn : a.nanos = b.nanos) : a = b := by
  cases a
  cases b
  cases hs
  cases hn
  rfl

def zero : Duration := ⟨0, 0, by decide⟩

instance : Inhabited Duration := ⟨zero⟩

/-- The longest duration. -/
def longest : Duration := ⟨18446744073709551615, 999999999, by decide⟩

/-- The duration in nanoseconds. -/
def toNanos (d : Duration) : Nat := d.secs.toNat * 1000000000 + d.nanos.toNat

def ofSecs (s : UInt64) : Duration := ⟨s, 0, by decide⟩

def ofMillis (ms : UInt64) : Duration :=
  ⟨ms / 1000, (ms % 1000).toUInt32 * 1000000, by
    have h : (ms % 1000).toNat < 1000 := by
      rw [UInt64.toNat_mod]
      exact Nat.mod_lt _ (by decide)
    have h' : (ms % 1000).toUInt32.toNat = (ms % 1000).toNat := by
      rw [UInt64.toNat_toUInt32]
      omega
    have h'' : (1000000 : UInt32).toNat = 1000000 := rfl
    rw [UInt32.toNat_mul, h', h'', Nat.mod_eq_of_lt (by omega)]
    omega⟩

def isZero (d : Duration) : Bool := d.secs == 0 && d.nanos == 0

theorem toNanos_of_isZero {d : Duration} (h : d.isZero = true) : d.toNanos = 0 := by
  simp only [isZero, Bool.and_eq_true, beq_iff_eq] at h
  rw [toNanos, h.1, h.2]
  rfl

/-- Seconds count first. -/
def lt (a b : Duration) : Bool := a.secs < b.secs || (a.secs == b.secs && a.nanos < b.nanos)

instance : Min Duration := ⟨fun a b => if b.lt a then b else a⟩

theorem lt_iff_toNanos {a b : Duration} : a.lt b = true ↔ a.toNanos < b.toNanos := by
  have ha := a.nanos_lt
  have hb := b.nanos_lt
  simp only [lt, toNanos, Bool.or_eq_true, Bool.and_eq_true, decide_eq_true_eq, beq_iff_eq,
    UInt64.lt_iff_toNat_lt, UInt32.lt_iff_toNat_lt, ← UInt64.toNat_inj]
  omega

theorem toNanos_inj {a b : Duration} : a.toNanos = b.toNanos ↔ a = b := by
  refine ⟨fun h => ?_, fun h => h ▸ rfl⟩
  have ha := a.nanos_lt
  have hb := b.nanos_lt
  simp only [toNanos] at h
  exact ext (UInt64.toNat_inj.mp (by omega)) (UInt32.toNat_inj.mp (by omega))

theorem toNanos_min (a b : Duration) : (min a b).toNanos = min a.toNanos b.toNanos := by
  show (if b.lt a then b else a).toNanos = _
  by_cases h : b.lt a = true
  · have := lt_iff_toNanos.mp h
    rw [if_pos h]
    omega
  · have := mt lt_iff_toNanos.mpr h
    rw [if_neg h]
    omega

/-! ### Multiplication -/

/-- The nanoseconds of `n` remainders, before the carry into seconds. -/
def remainders (d : Duration) (n : UInt32) : UInt64 := d.nanos.toUInt64 * n.toUInt64

theorem toNat_remainders (d : Duration) (n : UInt32) :
    (d.remainders n).toNat = d.nanos.toNat * n.toNat := by
  have hd := d.nanos_lt
  have hn := n.toNat_lt
  have : d.nanos.toNat * n.toNat < 2 ^ 64 :=
    Nat.lt_of_lt_of_le (Nat.mul_lt_mul'' hd hn) (by decide)
  rw [remainders, UInt64.toNat_mul, UInt32.toNat_toUInt64, UInt32.toNat_toUInt64]
  exact Nat.mod_eq_of_lt this

/-- `n` times the duration, or the longest one if that is too long. -/
def scale (d : Duration) (n : UInt32) : Duration :=
  let carry := d.remainders n / 1000000000
  if d.secs.toNat * n.toNat + carry.toNat < 18446744073709551616 then
    ⟨d.secs * n.toUInt64 + carry, (d.remainders n % 1000000000).toUInt32, by
      have h : (d.remainders n % 1000000000).toNat < 1000000000 := by
        rw [UInt64.toNat_mod]
        exact Nat.mod_lt _ (by decide)
      rw [UInt64.toNat_toUInt32]
      omega⟩
  else longest

end Duration

/-- A moment on the monotonic clock, in nanoseconds since it started. -/
abbrev Instant := Nat

namespace Instant

/-- The last moment that the clock can show. It counts seconds in a signed word of 64 bits, and
nanoseconds beside them. -/
def latest : Instant := 9223372036854775807999999999

/-- When a delay that starts now is over, if the clock can show it. -/
def after? (now : Instant) (d : Duration) : Option Instant :=
  if now + d.toNanos ≤ latest then some (now + d.toNanos) else none

theorem after?_eq_some {now t : Instant} {d : Duration} :
    now.after? d = some t ↔ t = now + d.toNanos ∧ t ≤ latest := by
  unfold after?
  split
  · rename_i h
    rw [Option.some.injEq]
    exact ⟨fun e => e ▸ ⟨rfl, h⟩, fun e => e.1.symm⟩
  · rename_i h
    exact ⟨nofun, fun e => absurd (e.1 ▸ e.2) h⟩

theorem after?_eq_none {now : Instant} {d : Duration} :
    now.after? d = none ↔ latest < now + d.toNanos := by
  unfold after?
  split
  · rename_i h
    exact ⟨nofun, fun beyond => absurd beyond (Nat.not_lt.mpr h)⟩
  · rename_i h
    exact ⟨fun _ => Nat.not_le.mp h, fun _ => rfl⟩

theorem le_of_after? {now t : Instant} {d : Duration} (h : now.after? d = some t) : now ≤ t := by
  rw [(after?_eq_some.mp h).1]
  exact Nat.le_add_right _ _

end Instant

end PoolControl
