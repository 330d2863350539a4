import PoolControl.Proofs.Failures
import PoolControl.Proofs.Queue.Delay

/-! What a queue shows of one key.

A `Slot` is all that an open queue knows of a key apart from its place in line: whether it is
dirty, whether a caller has it, the deadline of its delayed add, how often timers went off for
it, and its failures. Every operation on the key does to its slot what the operation of the same
name here does, and leaves the slots of other keys alone. Whether the key is in line follows from
its slot (`mem_ready_iff`). -/
namespace PoolControl

/-- What an open queue knows of a key. -/
@[ext] structure Slot where
  dirty : Bool
  /-- Whether a caller has the key. -/
  held : Bool
  /-- The deadline of the delayed add, if one is pending. -/
  waiting : Option Instant
  /-- How often a timer went off for the key and has yet to add it. -/
  due : Nat
  failures : UInt32

namespace Slot

/-- Neither wanted nor held, and without failures. -/
def vacant : Slot := ⟨false, false, none, 0, 0⟩

def add (s : Slot) : Slot := { s with dirty := true }

/-- Of two deadlines the earlier one counts. -/
def addBy (s : Slot) (t : Instant) : Slot := { s with waiting := some (s.waiting.elim t (min t)) }

/-- A delay that the clock cannot show is not set. -/
def addAfter (s : Slot) (now : Instant) (d : Duration) : Slot :=
  if d.isZero then s.add else (now.after? d).elim s s.addBy

/-- The delayed add goes off. -/
def expire (s : Slot) : Slot := { s with waiting := none, due := s.due + 1 }

def deliver (s : Slot) : Slot := { s with dirty := true, due := s.due - 1 }

def fail (s : Slot) : Slot :=
  { s with failures := if s.failures = Backoff.limit then s.failures else s.failures + 1 }

def addRateLimited (s : Slot) (p : Backoff.Policy) (now : Instant) : Slot :=
  s.fail.addAfter now (p.delay s.failures)

def forget (s : Slot) : Slot := { s with failures := 0 }

def take (s : Slot) : Slot := { s with dirty := false, held := true }

def done (s : Slot) : Slot := { s with held := false }

end Slot

namespace WorkQueue

variable {K : Type} [Ord K]

/-- What a queue shows of a key. -/
def slot [DecidableEq K] (q : WorkQueue K) (k : K) : Slot :=
  ⟨q.dirty.contains k, q.processing.contains k, q.waiting.get? k, q.due.count k, q.requeues k⟩

variable [Std.TransOrd K] [Std.LawfulEqOrd K] [DecidableEq K] {q : WorkQueue K}

/-! ### Sets and maps at one key -/

theorem contains_add (s : OrderedSet K) (k' k : K) :
    (s.add k').contains k = if k' = k then true else s.contains k := by
  rw [Bool.eq_iff_iff]
  refine (OrderedSet.mem_add : k ∈ s.add k' ↔ _).trans ?_
  split
  · rename_i h
    exact iff_of_true (.inl h.symm) rfl
  · rename_i h
    exact or_iff_right (Ne.symm h)

omit [Std.TransOrd K] in
theorem contains_erase (s : OrderedSet K) (k' k : K) :
    (OrderedMap.erase s k').contains k = if k' = k then false else s.contains k := by
  rw [Bool.eq_iff_iff]
  refine (OrderedSet.mem_erase : k ∈ OrderedMap.erase s k' ↔ _).trans ?_
  split
  · rename_i h
    exact iff_of_false (fun e => e.1 h.symm) Bool.false_ne_true
  · rename_i h
    exact and_iff_right (Ne.symm h)

omit [Std.TransOrd K] [Std.LawfulEqOrd K] in
/-- A key of a tidy queue is in line if and only if it is dirty and nobody has it. -/
theorem mem_ready_iff (h : q.Tidy) (hs : q.isShutDown = false) (k : K) :
    k ∈ q.ready ↔ (q.slot k).dirty = true ∧ (q.slot k).held = false := by
  refine ⟨fun hr => ⟨h.dirty k hr, eq_false_of_ne_true (h.idle k hr)⟩, fun ⟨hd, hp⟩ => ?_⟩
  refine (h.placed hs k hd).resolve_right fun held => ?_
  exact Bool.false_ne_true (hp.symm.trans held)

/-! ### The failure counts -/

omit [DecidableEq K] in
theorem backoff_add (q : WorkQueue K) (k : K) : (q.add k).backoff = q.backoff := by
  rcases add_cases q k with he | ⟨-, -, -, he⟩ | ⟨-, -, -, he⟩
  · rw [he]
  · rw [he]
  · rw [he]
    rfl

omit [DecidableEq K] in
theorem backoff_addAfter (q : WorkQueue K) (now : Instant) (k : K) (d : Duration) :
    (q.addAfter now k d).1.backoff = q.backoff := by
  rcases addAfter_cases q now k d with he | ⟨_, _, he⟩
  · rw [he]
    exact backoff_add q k
  · rw [he]

omit [DecidableEq K] in
theorem backoff_ask (q : WorkQueue K) (c : Nat) : (q.ask c).2.backoff = q.backoff := by
  obtain ⟨b, he⟩ := ask_eq q c
  rw [he]
  show q.take.2.backoff = q.backoff
  unfold take
  split
  · rfl
  · split <;> rfl

omit [Std.TransOrd K] [Std.LawfulEqOrd K] [DecidableEq K] in
theorem backoff_done (q : WorkQueue K) (k : K) : (q.done k).backoff = q.backoff := by
  rcases done_cases q k with ⟨-, he⟩ | ⟨-, -, he⟩
  · rw [he]
  · rw [he]
    rfl

/-! ### What the operations do -/

theorem slot_add (hs : q.isShutDown = false) (k' k : K) :
    (q.add k').slot k = if k' = k then (q.slot k).add else q.slot k := by
  have marked : (q.dirty.add k').contains k = if k' = k then true else q.dirty.contains k :=
    contains_add _ _ _
  have only {q' : WorkQueue K} (hd : q'.dirty = q.dirty.add k')
      (hp : q'.processing = q.processing) (same : SameDelays q q')
      (hb : q'.backoff = q.backoff) :
      q'.slot k = if k' = k then (q.slot k).add else q.slot k := by
    simp only [slot, requeues, hd, hp, same.waiting, same.due, hb, marked]
    split <;> rfl
  by_cases hd : k' ∈ q.dirty
  · rw [add_of_dirty hd]
    split
    · rename_i hk
      subst hk
      exact Slot.ext hd rfl rfl rfl rfl
    · rfl
  · by_cases hp : k' ∈ q.processing
    · rw [add_of_processing hs hd hp]
      exact only rfl rfl ⟨rfl, rfl, rfl⟩ rfl
    · rw [add_of_idle hs hd hp]
      exact only rfl rfl ⟨rfl, rfl, rfl⟩ rfl

theorem slot_addAll (hs : q.isShutDown = false) (ks : List K) (k : K) :
    (ks.foldl add q).slot k = if k ∈ ks then (q.slot k).add else q.slot k := by
  induction ks generalizing q with
  | nil => rfl
  | cons k' ks ih =>
    rw [List.foldl_cons, ih ((isShutDown_add q k').trans hs), slot_add hs]
    by_cases hk : k' = k
    · subst hk
      rw [if_pos rfl, if_pos (List.mem_cons_self ..)]
      split <;> rfl
    · rw [if_neg hk]
      have same : k ∈ k' :: ks ↔ k ∈ ks := by
        rw [List.mem_cons]
        exact or_iff_right (Ne.symm hk)
      simp only [same]

/-- Of the deadline that stands and the one that is asked for, the earlier one is kept. -/
theorem slot_addAfter_of_some (hs : q.isShutDown = false) {now t : Instant} {d : Duration}
    (k' k : K)
    (hz : d.isZero = false) (ht : now.after? d = some t) :
    (q.addAfter now k' d).1.slot k = if k' = k then (q.slot k).addBy t else q.slot k := by
  cases hd : q.isDueBy k' t with
  | true =>
    rw [addAfter_of_due hz ht hd]
    split
    · rename_i hk
      subst hk
      unfold isDueBy at hd
      split at hd
      · rename_i t' stands
        have earlier : t' ≤ t := of_decide_eq_true hd
        refine Slot.ext rfl rfl ?_ rfl rfl
        show q.waiting.get? k' = some ((q.waiting.get? k').elim _ _)
        rw [stands, Option.elim_some, Nat.min_eq_right earlier]
      · cases hd
    · rfl
  | false =>
    rw [addAfter_of_not_due hz ht hs hd]
    split
    · rename_i hk
      subst hk
      refine Slot.ext rfl rfl ?_ rfl rfl
      show (q.waiting.insert k' _).get? k' = some ((q.waiting.get? k').elim _ _)
      rw [OrderedMap.get?_insert, if_pos rfl]
      unfold isDueBy at hd
      split at hd
      · rename_i t' stands
        have later : ¬ t' ≤ t := of_decide_eq_false hd
        rw [stands, Option.elim_some, Nat.min_eq_left (Nat.le_of_not_le later)]
      · rename_i missing
        rw [missing, Option.elim_none]
    · rename_i hk
      refine Slot.ext rfl rfl ?_ rfl rfl
      exact (OrderedMap.get?_insert _ _ _ _).trans (if_neg (Ne.symm hk))

theorem slot_addAfter (hs : q.isShutDown = false) (now : Instant) (k' k : K) (d : Duration) :
    (q.addAfter now k' d).1.slot k = if k' = k then (q.slot k).addAfter now d else q.slot k := by
  cases hz : d.isZero with
  | true =>
    rw [addAfter_of_zero hz, slot_add hs, Slot.addAfter, if_pos hz]
  | false =>
    rw [Slot.addAfter, if_neg (ne_true_of_eq_false hz)]
    cases ht : now.after? d with
    | none =>
      rw [addAfter_of_beyond hz ht]
      exact (ite_self _).symm
    | some t => exact slot_addAfter_of_some hs k' k hz ht

theorem slot_addRateLimited (hs : q.isShutDown = false) (now : Instant) (k' k : K) :
    (q.addRateLimited now k').1.slot k =
      if k' = k then (q.slot k).addRateLimited q.backoff.policy now else q.slot k := by
  have counted : ({ q with backoff := q.backoff.fail k' } : WorkQueue K).slot k =
      if k' = k then (q.slot k).fail else q.slot k := by
    simp only [slot, requeues, Backoff.failures_fail]
    split <;> rfl
  unfold addRateLimited
  rw [slot_addAfter (q := { q with backoff := q.backoff.fail k' }) hs, counted]
  split
  · rename_i hk
    subst hk
    rfl
  · rfl

omit [Std.TransOrd K] in
theorem slot_forget (q : WorkQueue K) (k' k : K) :
    (q.forget k').slot k = if k' = k then (q.slot k).forget else q.slot k := by
  have count : (q.forget k').requeues k = if k' = k then 0 else q.requeues k :=
    q.backoff.failures_forget k' k
  simp only [slot, count]
  split <;> rfl

omit [Std.TransOrd K] in
/-- A timer whose deadline stands makes the delayed add go off. Any other does nothing. -/
theorem slot_expire (q : WorkQueue K) (k' k : K) (t : Instant) :
    (q.expire k' t).slot k =
      if k' = k ∧ (q.slot k).waiting = some t then (q.slot k).expire else q.slot k := by
  cases stands : q.stands k' t with
  | true =>
    rw [expire_of_standing stands]
    by_cases hk : k' = k
    · subst hk
      rw [if_pos ⟨rfl, stands_iff.mp stands⟩]
      refine Slot.ext rfl rfl ((OrderedMap.get?_erase _ _ _).trans (if_pos rfl)) ?_ rfl
      show (q.due ++ [k']).count k' = q.due.count k' + 1
      rw [List.count_append, List.count_singleton_self]
    · rw [if_neg fun e => hk e.1]
      refine Slot.ext rfl rfl ((OrderedMap.get?_erase _ _ _).trans (if_neg (Ne.symm hk))) ?_ rfl
      show (q.due ++ [k']).count k = q.due.count k
      rw [List.count_append, List.count_eq_zero.mpr (mt List.mem_singleton.mp (Ne.symm hk))]
      rfl
  | false =>
    rw [expire_of_stale stands, if_neg]
    · rfl
    · rintro ⟨rfl, e⟩
      exact Bool.false_ne_true (stands.symm.trans (stands_iff.mpr e))

theorem slot_deliver (hs : q.isShutDown = false) (k' k : K) :
    (q.deliver k').slot k = if k' = k then (q.slot k).deliver else q.slot k := by
  unfold deliver
  rw [slot_add (q := { q with due := q.due.erase k' }) hs]
  by_cases hk : k' = k
  · subst hk
    rw [if_pos rfl, if_pos rfl]
    exact Slot.ext rfl rfl rfl List.count_erase_self rfl
  · rw [if_neg hk, if_neg hk]
    exact Slot.ext rfl rfl rfl (List.count_erase_of_ne (Ne.symm hk)) rfl

theorem slot_ask_of_nil (hs : q.isShutDown = false) (h : q.ready = []) (c : Nat) (k : K) :
    (q.ask c).1 = .nothing ∧ (q.ask c).2.slot k = q.slot k := by
  obtain ⟨b, he⟩ := ask_eq q c
  rw [he, take_of_nil hs h]
  exact ⟨rfl, rfl⟩

/-- Asking hands out the head of the line. -/
theorem slot_ask_of_cons (hs : q.isShutDown = false) {k' : K} {rest : List K}
    (h : q.ready = k' :: rest) (c : Nat) (k : K) :
    (q.ask c).1 = .key k' ∧
      (q.ask c).2.slot k = if k' = k then (q.slot k).take else q.slot k := by
  obtain ⟨b, he⟩ := ask_eq q c
  rw [he, take_of_cons hs h]
  refine ⟨rfl, ?_⟩
  show Slot.mk ((OrderedMap.erase q.dirty k').contains k) ((q.processing.add k').contains k) _ _ _ =
    _
  rw [contains_erase, contains_add]
  split <;> rfl

omit [Std.TransOrd K] in
theorem slot_done (q : WorkQueue K) (k' k : K) :
    (q.done k').slot k = if k' = k then (q.slot k).done else q.slot k := by
  have only {q' : WorkQueue K} (hd : q'.dirty = q.dirty)
      (hp : q'.processing = OrderedMap.erase q.processing k') (same : SameDelays q q')
      (hb : q'.backoff = q.backoff) :
      q'.slot k = if k' = k then (q.slot k).done else q.slot k := by
    simp only [slot, requeues, hd, hp, same.waiting, same.due, hb, contains_erase]
    split <;> rfl
  rcases done_cases q k' with ⟨-, he⟩ | ⟨-, -, he⟩
  · rw [he]
    exact only rfl rfl ⟨rfl, rfl, rfl⟩ rfl
  · rw [he]
    exact only rfl rfl ⟨rfl, rfl, rfl⟩ rfl

/-! ### Queues in order -/

omit [Std.TransOrd K] [Std.LawfulEqOrd K] [DecidableEq K] in
/-- An open queue in order, with a given backoff policy. -/
structure Fit (p : Backoff.Policy) (q : WorkQueue K) : Prop where
  tidy : q.Tidy
  open_ : q.isShutDown = false
  policy : q.backoff.policy = p
  armed : ∀ k, ∃ deadlines, q.Armed k deadlines

namespace Fit

variable {p : Backoff.Policy}

omit [Std.TransOrd K] [Std.LawfulEqOrd K] [DecidableEq K] in
theorem new (p : Backoff.Policy) : (WorkQueue.new p : WorkQueue K).Fit p :=
  ⟨tidy_new p, rfl, rfl, fun k => ⟨[], armed_new p k⟩⟩

omit [Std.TransOrd K] [Std.LawfulEqOrd K] [DecidableEq K] in
theorem bell (h : q.Fit p) (b : Bell) : ({ q with bell := b } : WorkQueue K).Fit p :=
  ⟨h.tidy.of_same rfl rfl rfl rfl, h.open_, h.policy, fun k =>
    (h.armed k).imp fun _ a => a.of_same ⟨rfl, rfl, rfl⟩⟩

theorem add (h : q.Fit p) (k : K) : (q.add k).Fit p :=
  ⟨h.tidy.add k, (isShutDown_add q k).trans h.open_, by rw [backoff_add]; exact h.policy,
    fun k' => (h.armed k').imp fun _ a => a.of_same (delays_add q k)⟩

theorem addAll (h : q.Fit p) (ks : List K) : (ks.foldl WorkQueue.add q).Fit p := by
  induction ks generalizing q with
  | nil => exact h
  | cons k ks ih => exact ih (h.add k)

theorem addAfter (h : q.Fit p) (now : Instant) (k : K) (d : Duration) :
    (q.addAfter now k d).1.Fit p := by
  refine ⟨h.tidy.addAfter now k d, (isShutDown_addAfter q now k d).trans h.open_, ?_,
    fun k' => ?_⟩
  · rw [backoff_addAfter]
    exact h.policy
  · obtain ⟨deadlines, armed⟩ := h.armed k'
    exact ⟨_, armed.addAfter h.open_ now k d⟩

omit [Std.TransOrd K] [Std.LawfulEqOrd K] [DecidableEq K] in
theorem backoff (h : q.Fit p) {b : Backoff K} (hb : b.policy = p) :
    ({ q with backoff := b } : WorkQueue K).Fit p :=
  ⟨h.tidy.of_same rfl rfl rfl rfl, h.open_, hb, fun k =>
    (h.armed k).imp fun _ a => a.of_same ⟨rfl, rfl, rfl⟩⟩

theorem addRateLimited (h : q.Fit p) (now : Instant) (k : K) :
    (q.addRateLimited now k).1.Fit p :=
  (h.backoff h.policy : Fit p { q with backoff := q.backoff.fail k }).addAfter now k _

omit [Std.TransOrd K] [Std.LawfulEqOrd K] [DecidableEq K] in
theorem forget (h : q.Fit p) (k : K) : (q.forget k).Fit p := h.backoff h.policy

omit [Std.TransOrd K] in
theorem expire (h : q.Fit p) (k : K) (t : Instant) : (q.expire k t).Fit p := by
  refine ⟨h.tidy.expire k t, (isShutDown_expire q k t).trans h.open_, ?_, fun k' => ?_⟩
  · obtain ⟨_, _, _, he⟩ := expire_eq q k t
    rw [he]
    exact h.policy
  · obtain ⟨deadlines, armed⟩ := h.armed k'
    exact ⟨_, armed.expire k t⟩

theorem deliver (h : q.Fit p) (k : K) : (q.deliver k).Fit p := by
  have drawn : Fit p { q with due := q.due.erase k } :=
    ⟨h.tidy.of_same rfl rfl rfl rfl, h.open_, h.policy, fun k' =>
      (h.armed k').imp fun _ a => ⟨a.waiting, a.timer⟩⟩
  exact drawn.add k

theorem ask (h : q.Fit p) (c : Nat) : (q.ask c).2.Fit p := by
  refine ⟨?_, (isShutDown_ask q c).trans h.open_, by rw [backoff_ask]; exact h.policy,
    fun k => (h.armed k).imp fun _ a => a.of_same (delays_ask q c)⟩
  obtain ⟨b, he⟩ := ask_eq q c
  rw [he]
  exact h.tidy.take.of_same rfl rfl rfl rfl

omit [Std.TransOrd K] in
theorem done (h : q.Fit p) {k : K} (hk : k ∈ q.processing) : (q.done k).Fit p :=
  ⟨h.tidy.done hk, (isShutDown_done q k).trans h.open_, by rw [backoff_done]; exact h.policy,
    fun k' => (h.armed k').imp fun _ a => a.of_same (delays_done q k)⟩

end Fit

end WorkQueue

end PoolControl
