import Mathlib.Data.List.Nodup
import Mathlib.Logic.Function.Iterate
import PoolControl.Proofs.Queue.Placement
import PoolControl.Routing.Dispatch

/-! Several keys at once.

Adding different keys one after the other comes to one change of an open queue (`addAll_eq`):
all of them become dirty, those that nobody asked for or has yet line up in their order, and a
caller is woken for each of these. Keys that are dirty already change nothing.

`pending` counts how often a queue will hand out a key if nobody adds it again. A queue in order
hands out a dirty key once. -/
namespace PoolControl.WorkQueue

variable {K : Type} [Ord K]

/-- How often a key is still to be handed out: as often as it stands in line, and once more if it
is to line up again when it is given back. -/
def pending [DecidableEq K] (q : WorkQueue K) (k : K) : Nat :=
  q.ready.count k + if k ∈ q.processing ∧ k ∈ q.dirty then 1 else 0

theorem Tidy.pending_le_one [DecidableEq K] {q : WorkQueue K} (h : q.Tidy) (k : K) :
    q.pending k ≤ 1 := by
  unfold pending
  have once : q.ready.count k ≤ 1 := List.nodup_iff_count_le_one.mp h.nodup k
  split
  · rename_i held
    have absent : q.ready.count k = 0 := List.count_eq_zero.mpr fun mem => h.idle k mem held.1
    exact Nat.le_of_eq (congrArg (· + 1) absent)
  · exact once

/-- An open queue hands out the dirty keys, each once. -/
theorem Tidy.pending_eq [DecidableEq K] {q : WorkQueue K} (h : q.Tidy) (hs : q.isShutDown = false)
    (k : K) : q.pending k = if k ∈ q.dirty then 1 else 0 := by
  split
  · rename_i dirty
    refine Nat.le_antisymm (h.pending_le_one k) ?_
    unfold pending
    rcases h.placed hs k dirty with ready | held
    · exact Nat.le_add_right_of_le (List.count_pos_iff.mpr ready)
    · rw [if_pos ⟨held, dirty⟩]
      exact Nat.le_add_left ..
  · rename_i clean
    have absent : q.ready.count k = 0 := List.count_eq_zero.mpr fun mem => clean (h.dirty k mem)
    rw [pending, absent, if_neg fun again => clean again.2]

variable [Std.TransOrd K] [Std.LawfulEqOrd K] {q : WorkQueue K}

theorem isShutDown_addAll (q : WorkQueue K) (ks : List K) :
    (q.addAll ks).isShutDown = q.isShutDown := by
  induction ks generalizing q with
  | nil => rfl
  | cons k ks ih => exact (ih (q.add k)).trans (isShutDown_add q k)

theorem addAll_of_shutDown (ks : List K) (h : q.isShutDown = true) : q.addAll ks = q := by
  induction ks with
  | nil => rfl
  | cons k ks ih =>
    show (q.add k).addAll ks = q
    rw [add_of_shutDown k h, ih]

/-- Keys that are to be handed out anyway change nothing. -/
theorem addAll_of_dirty {ks : List K} (h : ∀ k ∈ ks, k ∈ q.dirty) : q.addAll ks = q := by
  induction ks with
  | nil => rfl
  | cons k ks ih =>
    obtain ⟨hk, hks⟩ := List.forall_mem_cons.mp h
    show (q.add k).addAll ks = q
    rw [add_of_dirty hk, ih hks]

variable [DecidableEq K]

theorem Tidy.addAll (h : q.Tidy) (ks : List K) : (q.addAll ks).Tidy := by
  induction ks generalizing q with
  | nil => exact h
  | cons k ks ih => exact ih (h.add k)

theorem mem_dirty_add_iff (hs : q.isShutDown = false) {k k' : K} :
    k ∈ (q.add k').dirty ↔ k ∈ q.dirty ∨ k = k' := by
  have marked : k ∈ q.dirty.add k' ↔ k ∈ q.dirty ∨ k = k' := OrderedSet.mem_add.trans or_comm
  by_cases hd : k' ∈ q.dirty
  · rw [add_of_dirty hd]
    exact (or_iff_left_of_imp fun same => same ▸ hd).symm
  · by_cases hp : k' ∈ q.processing
    · rw [add_of_processing hs hd hp]
      exact marked
    · rw [add_of_idle hs hd hp]
      exact marked

/-- What was dirty stays so, and what is added becomes so. -/
theorem mem_dirty_addAll (hs : q.isShutDown = false) (ks : List K) {k : K} :
    k ∈ (q.addAll ks).dirty ↔ k ∈ q.dirty ∨ k ∈ ks := by
  induction ks generalizing q with
  | nil => exact (or_iff_left List.not_mem_nil).symm
  | cons k' ks ih =>
    show k ∈ ((q.add k').addAll ks).dirty ↔ _
    rw [ih ((isShutDown_add q k').trans hs), mem_dirty_add_iff hs, List.mem_cons, or_assoc]

/-- What is added to an open queue is to be handed out once, whatever was there before. -/
theorem Tidy.pending_addAll (h : q.Tidy) (hs : q.isShutDown = false) (ks : List K) (k : K) :
    (q.addAll ks).pending k = if k ∈ ks then 1 else q.pending k := by
  rw [(h.addAll ks).pending_eq ((isShutDown_addAll q ks).trans hs), h.pending_eq hs]
  by_cases hk : k ∈ ks
  · rw [if_pos ((mem_dirty_addAll hs ks).mpr (.inr hk)), if_pos hk]
  · rw [if_neg hk]
    exact if_congr ((mem_dirty_addAll hs ks).trans (or_iff_left hk)) rfl rfl

/-- The keys of a list that line up when they are added. -/
def joining (q : WorkQueue K) (ks : List K) : List K :=
  ks.filter fun k => k ∉ q.dirty ∧ k ∉ q.processing

/-- Another key does not matter for whether keys line up. -/
theorem joining_of_other {q' : WorkQueue K} {k : K} {ks : List K} (hk : k ∉ ks)
    (dirty : q'.dirty = q.dirty.add k) (processing : q'.processing = q.processing) :
    q'.joining ks = q.joining ks := by
  refine List.filter_congr fun k' hk' => decide_eq_decide.mpr ?_
  have other : k' ≠ k := fun same => hk (same ▸ hk')
  rw [dirty, processing, OrderedSet.mem_add, or_iff_right other]

/-- **What adding different keys makes of an open queue.** -/
theorem addAll_eq (hs : q.isShutDown = false) {ks : List K} (nodup : ks.Nodup) :
    q.addAll ks = { q with
      ready := q.ready ++ q.joining ks
      dirty := ks.foldl OrderedSet.add q.dirty
      bell := Bell.ring^[(q.joining ks).length] q.bell } := by
  induction ks generalizing q with
  | nil => simp [addAll, joining]
  | cons k ks ih =>
    obtain ⟨hk, nodup⟩ := List.nodup_cons.mp nodup
    show (q.add k).addAll ks = _
    let marked : WorkQueue K := { q with dirty := q.dirty.add k }
    have others : marked.joining ks = q.joining ks := joining_of_other hk rfl rfl
    by_cases hd : k ∈ q.dirty
    · have stays : q.joining (k :: ks) = q.joining ks := List.filter_cons_of_neg (by simp [hd])
      rw [add_of_dirty hd, ih hs nodup, stays, List.foldl_cons, OrderedSet.add_of_mem hd]
    · by_cases hp : k ∈ q.processing
      · have stays : q.joining (k :: ks) = q.joining ks := List.filter_cons_of_neg (by simp [hp])
        rw [add_of_processing hs hd hp, stays, ← others]
        exact ih (q := marked) hs nodup
      · have joins : q.joining (k :: ks) = k :: q.joining ks :=
          List.filter_cons_of_pos (by simp [hd, hp])
        have later := ih (q := marked.push k) hs nodup
        rw [show (marked.push k).joining ks = q.joining ks from others] at later
        rw [add_of_idle hs hd hp, later, joins]
        simp only [push, marked, List.append_assoc, List.singleton_append, List.length_cons,
          Function.iterate_succ_apply, List.foldl_cons]

/-- The keys of a set are added in their order. -/
theorem addAll_elements (hs : q.isShutDown = false) (ks : OrderedSet K) :
    q.addAll (OrderedSet.elements ks) = { q with
      ready := q.ready ++ q.joining (OrderedSet.elements ks)
      dirty := OrderedSet.union q.dirty ks
      bell := Bell.ring^[(q.joining (OrderedSet.elements ks)).length] q.bell } := by
  rw [OrderedSet.union_eq]
  exact addAll_eq hs (OrderedSet.nodup_elements ks)

end PoolControl.WorkQueue
