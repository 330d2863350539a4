import Mathlib.Data.List.DropRight
import PoolControl.Proofs.Backoff
import PoolControl.Proofs.System

/-! How failures are counted.

The counts are told that a key failed, which they answer with the delay before the next attempt,
or that it is forgotten. A count is that of the failures since the key was last forgotten, up to
the largest number there is (`toNat_failures_run`), so the answers follow from what was told
before. Two counters that agree on a key cannot be told apart by it (`Alike`), which is why nothing
else in a sequence of acts matters to it. `counts_each_key` puts this together. -/
namespace PoolControl

namespace Backoff

/-! ### The count of a key -/

section

variable {K : Type} [Ord K] [Std.TransOrd K] [Std.LawfulEqOrd K] [DecidableEq K]

theorem failures_fail (b : Backoff K) (k' k : K) :
    (b.fail k').failures k =
      if k' = k then (if b.failures k = limit then b.failures k else b.failures k + 1)
      else b.failures k := by
  show ((b.counts.insert k' _).get? k).getD 0 = _
  rw [OrderedMap.get?_insert]
  by_cases hk : k' = k
  · subst hk
    rw [if_pos rfl, if_pos rfl]
    rfl
  · rw [if_neg (Ne.symm hk), if_neg hk]
    rfl

omit [Std.TransOrd K] in
theorem failures_forget (b : Backoff K) (k' k : K) :
    (b.forget k').failures k = if k' = k then 0 else b.failures k := by
  show ((b.counts.erase k').get? k).getD 0 = _
  rw [OrderedMap.get?_erase]
  by_cases hk : k' = k
  · rw [if_pos hk.symm, if_pos hk]
    rfl
  · rw [if_neg (Ne.symm hk), if_neg hk]
    rfl

end

/-- One failure more, as far as it can be counted. -/
theorem toNat_raised (n : UInt32) :
    (if n = limit then n else n + 1).toNat = min (n.toNat + 1) (2 ^ 32 - 1) := by
  have most : limit.toNat = 2 ^ 32 - 1 := rfl
  split
  · rename_i full
    rw [full, most]
    omega
  · rename_i more
    have below : n.toNat ≠ 2 ^ 32 - 1 := fun e => more (UInt32.toNat_inj.mp (e.trans most.symm))
    have word := n.toNat_lt
    rw [UInt32.toNat_add, UInt32.toNat_one]
    omega

/-! ### Acts -/

/-- What the counts are told. -/
inductive Act (K : Type)
  /-- A key failed and has to wait. -/
  | fail (k : K)
  | forget (k : K)
deriving DecidableEq

namespace Act

variable {K : Type}

/-- The key that an act is about. -/
def key : Act K → K
  | fail k => k
  | forget k => k

variable [DecidableEq K]

/-- How often a key failed since it was last forgotten. -/
def failed (k : K) (l : List (Act K)) : Nat := (l.rtakeWhile (· ≠ .forget k)).count (.fail k)

theorem failed_concat (k : K) (l : List (Act K)) (a : Act K) :
    failed k (l ++ [a]) =
      if a = .forget k then 0 else failed k l + if a = .fail k then 1 else 0 := by
  rw [failed, List.rtakeWhile_concat]
  by_cases forgotten : a = .forget k
  · simp [forgotten]
  · simp [forgotten, failed, List.count_append, List.count_singleton]

/-- Until the key is forgotten its failures only add up. -/
theorem failed_append {k : K} (l : List (Act K)) {m : List (Act K)} (kept : .forget k ∉ m) :
    failed k (l ++ m) = failed k l + m.count (.fail k) := by
  induction m using List.reverseRecOn with
  | nil => rw [List.append_nil, List.count_nil, Nat.add_zero]
  | append_singleton m a ih =>
    obtain ⟨before, last⟩ : .forget k ∉ m ∧ .forget k ≠ a := by simpa using kept
    rw [← List.append_assoc, failed_concat, if_neg (Ne.symm last), ih before, List.count_append,
      List.count_singleton, Nat.add_assoc]
    simp only [beq_iff_eq]

/-- A key that did not fail after it was forgotten has no failures. -/
theorem failed_of_forgotten {k : K} (l : List (Act K)) {m : List (Act K)}
    (forgotten : .forget k ∈ m)
    (well : .fail k ∉ m) : failed k (l ++ m) = 0 := by
  induction m using List.reverseRecOn with
  | nil => cases forgotten
  | append_singleton m a ih =>
    obtain ⟨before, last⟩ : .fail k ∉ m ∧ .fail k ≠ a := by simpa using well
    rw [← List.append_assoc, failed_concat]
    split
    · rfl
    · rename_i other
      have earlier : .forget k ∈ m := by simpa [Ne.symm other] using forgotten
      rw [ih earlier before, if_neg (Ne.symm last)]

end Act

open Act (failed)

variable {K : Type} [Ord K] [Std.TransOrd K] [Std.LawfulEqOrd K]

/-- What an act makes of the counts. -/
def next (b : Backoff K) : Act K → Backoff K
  | .fail k => b.fail k
  | .forget k => b.forget k

omit [Std.TransOrd K] [Std.LawfulEqOrd K] in
/-- What an act is answered: how long the key has to wait if it failed. -/
def answer (b : Backoff K) : Act K → Option Duration
  | .fail k => some (b.nextDelay k)
  | .forget _ => none

/-- Any act can be told at any time. -/
abbrev system : System (Backoff K) (Act K) := ⟨next, fun _ _ => True⟩

def run (b : Backoff K) (l : List (Act K)) : Backoff K := system.run b l

/-- The answers along a run. -/
def answers (b : Backoff K) : List (Act K) → List (Option Duration)
  | [] => []
  | a :: rest => b.answer a :: answers (b.next a) rest

theorem run_append (b : Backoff K) (l m : List (Act K)) : b.run (l ++ m) = (b.run l).run m :=
  system.run_append b l m

theorem policy_next (b : Backoff K) (a : Act K) : (b.next a).policy = b.policy := by
  cases a <;> rfl

theorem policy_run (b : Backoff K) (l : List (Act K)) : (b.run l).policy = b.policy :=
  system.run_keeps (I := fun b' => b'.policy = b.policy) rfl fun _ h => (policy_next _ _).trans h

/-- An act is answered by the counts as they are when its turn comes. -/
theorem getElem?_answers (b : Backoff K) (l : List (Act K)) (i : Nat) :
    (b.answers l)[i]? = l[i]?.map (b.run (l.take i)).answer := by
  induction l generalizing b i with
  | nil => rfl
  | cons a rest ih =>
    cases i with
    | zero => rfl
    | succ i => exact ih (b.next a) i

variable [DecidableEq K]

/-- **A count is that of the failures since the key was last forgotten**, up to the limit. -/
theorem toNat_failures_run (p : Policy) (l : List (Act K)) (k : K) :
    (((ofPolicy p).run l).failures k).toNat = min (failed k l) (2 ^ 32 - 1) := by
  induction l using List.reverseRecOn with
  | nil => rfl
  | append_singleton l a ih =>
    rw [run_append, Act.failed_concat]
    show ((((ofPolicy p).run l).next a).failures k).toNat = _
    cases a with
    | fail k' =>
      simp only [next, failures_fail, reduceCtorEq, if_false, Act.fail.injEq]
      split
      · rw [toNat_raised, ih]
        omega
      · exact ih
    | forget k' =>
      simp only [next, failures_forget, reduceCtorEq, if_false, Act.forget.injEq]
      split
      · rfl
      · exact ih

/-- What a key that fails in the course of a run is answered. -/
theorem answer_of_fail (p : Policy) {l : List (Act K)} {k : K} {i : Nat}
    (fails : l[i]? = some (.fail k)) :
    ((ofPolicy p).answers l)[i]? =
      some (some (p.delay (.ofNat (min (failed k (l.take i)) (2 ^ 32 - 1))))) := by
  have count : ((ofPolicy p).run (l.take i)).failures k =
      .ofNat (min (failed k (l.take i)) (2 ^ 32 - 1)) := by
    rw [← toNat_failures_run p, UInt32.ofNat_toNat]
  rw [getElem?_answers, fails, Option.map_some, answer, nextDelay, policy_run, count]
  rfl

/-- Until a key is forgotten none of its delays is shorter than one before it. -/
theorem delay_le_of_kept (p : Policy) {l : List (Act K)} {k : K} {i n : Nat} {d d' : Duration}
    (first : l[i]? = some (.fail k)) (second : l[i + n]? = some (.fail k))
    (kept : .forget k ∉ (l.drop i).take n) (told : ((ofPolicy p).answers l)[i]? = some (some d))
    (told' : ((ofPolicy p).answers l)[i + n]? = some (some d')) : d.toNanos ≤ d'.toNanos := by
  rw [answer_of_fail p first] at told
  rw [answer_of_fail p second] at told'
  cases told
  cases told'
  have word (m : Nat) : min m (2 ^ 32 - 1) < UInt32.size :=
    Nat.lt_of_le_of_lt (Nat.min_le_right _ _) (by decide)
  refine p.delay_mono ((UInt32.ofNat_le_iff_le (word _) (word _)).mpr ?_)
  rw [List.take_add, Act.failed_append _ kept]
  omega

/-- A key that fails for the first time after it was forgotten waits for the first delay of all. -/
theorem answer_of_forgotten (p : Policy) {l : List (Act K)} {k : K} {i n : Nat}
    (forgotten : l[i]? = some (.forget k)) (well : .fail k ∉ (l.drop i).take n)
    (fails : l[i + n]? = some (.fail k)) :
    ((ofPolicy p).answers l)[i + n]? = some (some (p.delay 0)) := by
  have later : n ≠ 0 := by
    rintro rfl
    rw [Nat.add_zero, forgotten] at fails
    cases fails
  have recent : .forget k ∈ (l.drop i).take n := by
    refine List.mem_of_getElem? (i := 0) ?_
    rw [List.getElem?_take_of_lt (Nat.pos_of_ne_zero later), List.getElem?_drop]
    exact forgotten
  rw [answer_of_fail p fails, List.take_add, Act.failed_of_forgotten _ recent well]
  rfl

/-! ### Other keys -/

/-- A key cannot tell two counters apart. -/
structure Alike (k : K) (b b' : Backoff K) : Prop where
  policy : b.policy = b'.policy
  failures : b.failures k = b'.failures k

namespace Alike

variable {k : K} {b b' : Backoff K} {a : Act K}

omit [Std.TransOrd K] [Std.LawfulEqOrd K] [DecidableEq K] in
theorem answer (h : Alike k b b') (about : a.key = k) : b.answer a = b'.answer a := by
  cases a with
  | forget => rfl
  | fail k' =>
    have same : k' = k := about
    show some (b.policy.delay (b.failures k')) = some (b'.policy.delay (b'.failures k'))
    rw [same, h.policy, h.failures]

theorem next (h : Alike k b b') (a : Act K) : Alike k (b.next a) (b'.next a) := by
  refine ⟨by rw [policy_next, policy_next, h.policy], ?_⟩
  cases a with
  | fail k' => simp only [Backoff.next, failures_fail, h.failures]
  | forget k' => simp only [Backoff.next, failures_forget, h.failures]

/-- Acts about other keys go unnoticed. -/
theorem next_of_ne (h : Alike k b b') (other : a.key ≠ k) : Alike k (b.next a) b' := by
  refine ⟨(b.policy_next a).trans h.policy, ?_⟩
  cases a with
  | fail k' => exact (failures_fail b k' k).trans ((if_neg other).trans h.failures)
  | forget k' => exact (failures_forget b k' k).trans ((if_neg other).trans h.failures)

end Alike

/-- The answers to the acts about a key. -/
def answersTo (b : Backoff K) (k : K) (l : List (Act K)) : List (Option Duration) :=
  ((l.zip (b.answers l)).filter (·.1.key = k)).map (·.2)

/-- To a key it makes no difference if the acts about other keys are left out. -/
theorem Alike.run {k : K} {b b' : Backoff K} (h : Alike k b b') (l : List (Act K)) :
    Alike k (b.run l) (b'.run (l.filter (·.key = k))) ∧
      b.answersTo k l = b'.answers (l.filter (·.key = k)) := by
  -- Acts that are left out make the counters differ on other keys, so there have to be two.
  induction l generalizing b b' with
  | nil => exact ⟨h, rfl⟩
  | cons a rest ih =>
    by_cases about : a.key = k
    · obtain ⟨after, answered⟩ := ih (h.next a)
      rw [List.filter_cons_of_pos (by simpa using about)]
      refine ⟨after, ?_⟩
      rw [answers, ← h.answer about, ← answered]
      simp [answersTo, answers, about]
    · obtain ⟨after, answered⟩ := ih (h.next_of_ne about)
      rw [List.filter_cons_of_neg (by simpa using about)]
      refine ⟨after, ?_⟩
      rw [← answered]
      simp [answersTo, answers, about]

/-- **The failures of every key are counted exactly.** The count is the number of failures since
the key was last forgotten, up to the largest one there is, and a key that fails waits for the
delay of the count before it. Acts about other keys have no part in this. Until the key is
forgotten no delay is shorter than one before it, and its first delay after that is the first of
all. -/
theorem counts_each_key (p : Policy) (l : List (Act K)) (k : K) :
    let b : Backoff K := ofPolicy p
    ((b.run l).failures k).toNat = min (failed k l) (2 ^ 32 - 1) ∧
      (∀ i, l[i]? = some (.fail k) → (b.answers l)[i]? =
        some (some (p.delay (.ofNat (min (failed k (l.take i)) (2 ^ 32 - 1)))))) ∧
      (b.run l).failures k = (b.run (l.filter (·.key = k))).failures k ∧
      b.answersTo k l = b.answers (l.filter (·.key = k)) ∧
      (∀ i n d d', l[i]? = some (.fail k) → l[i + n]? = some (.fail k) →
        .forget k ∉ (l.drop i).take n → (b.answers l)[i]? = some (some d) →
        (b.answers l)[i + n]? = some (some d') → d.toNanos ≤ d'.toNanos) ∧
      ∀ i n, l[i]? = some (.forget k) → .fail k ∉ (l.drop i).take n →
        l[i + n]? = some (.fail k) → (b.answers l)[i + n]? = some (some (p.delay 0)) := by
  intro b
  obtain ⟨alike, answered⟩ := (⟨rfl, rfl⟩ : Alike k b b).run l
  exact ⟨toNat_failures_run p l k, fun i => answer_of_fail p, alike.failures, answered,
    fun i n d d' => delay_le_of_kept p, fun i n => answer_of_forgotten p⟩

/-- A key that was forgotten starts with the first delay, another one goes on. -/
theorem counts_each_key_forgotten :
    let l : List (Act Nat) := [.fail 1, .fail 1, .fail 2, .forget 1, .fail 2, .fail 1]
    let b : Backoff Nat := ofPolicy default
    b.answers l = [some (.ofMillis 100), some (.ofMillis 200), some (.ofMillis 100), none,
        some (.ofMillis 200), some (.ofMillis 100)] ∧
      ((b.run l).failures 1).toNat = 1 ∧ ((b.run l).failures 2).toNat = 2 ∧
      (b.answers l)[5]? = some (some (Policy.delay default 0)) := by
  intro l b
  obtain ⟨first, _, _, _, _, restart⟩ := counts_each_key default l 1
  obtain ⟨second, _⟩ := counts_each_key default l 2
  exact ⟨by decide, first, second, restart 3 2 rfl (by decide) rfl⟩

end Backoff

end PoolControl
