import PoolControl.Proofs.Queue.Delay
import PoolControl.Proofs.Queue.Turn

/-! Rings that operations owe.

An operation that changes a queue does so under the lock and rings the bell afterwards. What it
makes of the queue does not depend on the bell (`Makes`), so the two halves can be told apart:
`rings` says whether an operation rings at all. It rings for one key at most, and whenever it makes
one ready (`exists_makes`). -/
namespace PoolControl

/-- What happens to a queue under its lock, callers that look for a key apart. -/
inductive Change (K : Type)
  | add (k : K)
  | addAfter (now : Instant) (k : K) (d : Duration)
  /-- A failure is counted. -/
  | fail (k : K)
  | forget (k : K)
  | expire (k : K) (t : Instant)
  | deliver (k : K)
  | done (k : K)
deriving DecidableEq

namespace Change

variable {K : Type} [Ord K] [Std.TransOrd K] [Std.LawfulEqOrd K] [DecidableEq K]

def apply (q : WorkQueue K) : Change K → WorkQueue K
  | .add k => q.add k
  | .addAfter now k d => (q.addAfter now k d).1
  | .fail k => { q with backoff := q.backoff.fail k }
  | .forget k => q.forget k
  | .expire k t => q.expire k t
  | .deliver k => q.deliver k
  | .done k => q.done k

/-- Whether a change rings the bell, as one hears from a bell that is silent. -/
def rings (q : WorkQueue K) (a : Change K) : Bool :=
  (a.apply { q with bell := .silent }).bell.permit

/-- What a change makes of a queue, whatever its bell, is `q'`, and it rings once if `r`. It rings
whenever a key becomes ready. -/
structure Makes (a : Change K) (q q' : WorkQueue K) (r : Bool) : Prop where
  apply : ∀ b : Bell, a.apply { q with bell := b } = { q' with bell := if r then b.ring else b }
  ready : q'.ready.length ≤ q.ready.length + r.toNat
  shut : q'.isShutDown = q.isShutDown

theorem makes_add (q : WorkQueue K) (k : K) : ∃ q' r, (Change.add k).Makes q q' r := by
  by_cases hs : q.isShutDown = true
  · exact ⟨q, false, fun b => WorkQueue.add_of_shutDown (q := { q with bell := b }) k hs,
      Nat.le_refl _, rfl⟩
  have hs : q.isShutDown = false := eq_false_of_ne_true hs
  by_cases hd : k ∈ q.dirty
  · exact ⟨q, false, fun b => WorkQueue.add_of_dirty (q := { q with bell := b }) hd,
      Nat.le_refl _, rfl⟩
  by_cases hp : k ∈ q.processing
  · exact ⟨{ q with dirty := q.dirty.add k }, false,
      fun b => WorkQueue.add_of_processing (q := { q with bell := b }) hs hd hp, Nat.le_refl _, rfl⟩
  · refine ⟨{ q with dirty := q.dirty.add k, ready := q.ready ++ [k] }, true,
      fun b => WorkQueue.add_of_idle (q := { q with bell := b }) hs hd hp, ?_, rfl⟩
    exact Nat.le_of_eq (List.length_append ..)

theorem makes_addAfter (q : WorkQueue K) (now : Instant) (k : K) (d : Duration) :
    ∃ q' r, (Change.addAfter now k d).Makes q q' r := by
  cases hz : d.isZero with
  | true =>
    obtain ⟨q', r, h⟩ := makes_add q k
    refine ⟨q', r, fun b => ?_, h.ready, h.shut⟩
    exact (congrArg Prod.fst (WorkQueue.addAfter_of_zero hz)).trans (h.apply b)
  | false =>
    have unheard (waiting : OrderedMap K Instant) (timers : List (K × Instant))
        (he : ∀ b : Bell, (WorkQueue.addAfter { q with bell := b } now k d).1 =
          { q with waiting, timers, bell := b }) : ∃ q' r, (Change.addAfter now k d).Makes q q' r :=
      ⟨{ q with waiting, timers }, false, he, Nat.le_refl _, rfl⟩
    cases ht : now.after? d with
    | none =>
      refine unheard q.waiting q.timers fun b => ?_
      rw [WorkQueue.addAfter_of_beyond hz ht]
    | some t =>
      by_cases hd : (q.isShutDown || q.isDueBy k t) = true
      · refine unheard q.waiting q.timers fun b => ?_
        simp only [WorkQueue.addAfter, hz, ht, Bool.false_eq_true, if_false]
        exact congrArg Prod.fst (if_pos hd)
      · refine unheard (q.waiting.insert k t) (q.timers ++ [(k, t)]) fun b => ?_
        simp only [WorkQueue.addAfter, hz, ht, Bool.false_eq_true, if_false]
        exact congrArg Prod.fst (if_neg hd)

theorem makes_expire (q : WorkQueue K) (k : K) (t : Instant) :
    ∃ q' r, (Change.expire k t).Makes q q' r := by
  refine ⟨q.expire k t, false, fun b => ?_, ?_, WorkQueue.isShutDown_expire q k t⟩
  · show WorkQueue.expire { q with bell := b } k t = { q.expire k t with bell := b }
    cases standing : q.stands k t
    · rw [WorkQueue.expire_of_stale standing]
      exact WorkQueue.expire_of_stale (q := { q with bell := b }) standing
    · rw [WorkQueue.expire_of_standing standing]
      exact WorkQueue.expire_of_standing (q := { q with bell := b }) standing
  · exact Nat.le_of_eq (congrArg (·.ready.length) (WorkQueue.keys_expire q k t))

theorem makes_done (q : WorkQueue K) (k : K) : ∃ q' r, (Change.done k).Makes q q' r := by
  by_cases again : (q.isShutDown || !q.dirty.contains k) = true
  · exact ⟨{ q with processing := q.processing.erase k }, false, fun b => if_pos again,
      Nat.le_refl _, rfl⟩
  · refine ⟨{ q with processing := q.processing.erase k, ready := q.ready ++ [k] }, true,
      fun b => if_neg again, ?_, rfl⟩
    exact Nat.le_of_eq (List.length_append ..)

/-- **Every change rings for the key that it makes ready.** -/
theorem exists_makes (q : WorkQueue K) (a : Change K) : ∃ q' r, a.Makes q q' r := by
  cases a with
  | add k => exact makes_add q k
  | addAfter now k d => exact makes_addAfter q now k d
  | fail k =>
    exact ⟨{ q with backoff := q.backoff.fail k }, false, fun _ => rfl, Nat.le_refl _, rfl⟩
  | forget k => exact ⟨q.forget k, false, fun _ => rfl, Nat.le_refl _, rfl⟩
  | expire k t => exact makes_expire q k t
  | deliver k =>
    obtain ⟨q', r, h⟩ := makes_add { q with due := q.due.erase k } k
    exact ⟨q', r, h.apply, h.ready, h.shut⟩
  | done k => exact makes_done q k

variable {q q' : WorkQueue K} {r : Bool} {a : Change K}

theorem Makes.rings (h : a.Makes q q' r) : a.rings q = r := by
  unfold Change.rings
  rw [h.apply]
  cases r <;> rfl

/-- What a change does to the bell. -/
theorem bell_apply (q : WorkQueue K) (a : Change K) :
    (a.apply q).bell = if a.rings q then q.bell.ring else q.bell := by
  obtain ⟨q', r, h⟩ := exists_makes q a
  rw [h.rings]
  exact congrArg (·.bell) (h.apply q.bell)

theorem length_ready_apply_le (q : WorkQueue K) (a : Change K) :
    (a.apply q).ready.length ≤ q.ready.length + (a.rings q).toNat := by
  obtain ⟨q', r, h⟩ := exists_makes q a
  rw [h.rings]
  exact Nat.le_trans (Nat.le_of_eq (congrArg (·.ready.length) (h.apply q.bell))) h.ready

theorem isShutDown_apply (q : WorkQueue K) (a : Change K) :
    (a.apply q).isShutDown = q.isShutDown := by
  obtain ⟨q', r, h⟩ := exists_makes q a
  exact (congrArg (·.isShutDown) (h.apply q.bell)).trans h.shut

end Change

end PoolControl
