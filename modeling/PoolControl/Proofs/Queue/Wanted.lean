import PoolControl.Proofs.Queue.Slot

/-! Keys that are still to be handed out.

A key is wanted from the moment somebody asks for it, at once or after a delay, until a caller
gets it: it is dirty, or a delayed add of it is pending, or its timer went off and the key is
yet to be added. A deed that does not hand the key out leaves it wanted or not as it was, or
asks for it (`wants_next_iff`). -/
namespace PoolControl

namespace Slot

/-- Whether a delayed add is pending, or went off and is yet to be made. -/
def IsPending (s : Slot) : Prop := s.waiting.isSome = true ∨ 0 < s.due

/-- Wanted, as far as the queue knows. -/
def IsWanted (s : Slot) : Prop := s.dirty = true ∨ s.IsPending

/-- A timer that goes off moves what it stands for from the deadlines to what is due. -/
theorem isWanted_expire {s : Slot} {t : Instant} (waits : s.waiting = some t) :
    s.expire.IsWanted ↔ s.IsWanted :=
  iff_of_true (.inr (.inr (Nat.succ_pos _))) (.inr (.inl (by rw [waits]; rfl)))

theorem isWanted_deliver {s : Slot} (due : 0 < s.due) : s.deliver.IsWanted ↔ s.IsWanted :=
  iff_of_true (.inl rfl) (.inr (.inr due))

end Slot

namespace WorkQueue

variable {K : Type} [Ord K] [Std.TransOrd K] [Std.LawfulEqOrd K] [DecidableEq K] {q : WorkQueue K}

theorem isWanted_add_iff (hs : q.isShutDown = false) (k' k : K) :
    ((q.add k').slot k).IsWanted ↔ (q.slot k).IsWanted ∨ k' = k := by
  rw [slot_add hs]
  split
  · rename_i hk
    exact iff_of_true (.inl rfl) (.inr hk)
  · rename_i hk
    exact (or_iff_left hk).symm

/-- A delayed add that returns leaves its key wanted. -/
theorem isWanted_addAfter_iff (hs : q.isShutDown = false) (now : Instant) (k' k : K)
    (d : Duration) :
    ((q.addAfter now k' d).1.slot k).IsWanted ↔
      (q.slot k).IsWanted ∨ ((q.addAfter now k' d).2 = true ∧ k' = k) := by
  cases hz : d.isZero with
  | true =>
    rw [addAfter_of_zero hz, isWanted_add_iff hs]
    simp only [true_and]
  | false =>
    cases ht : now.after? d with
    | none =>
      rw [addAfter_of_beyond hz ht]
      exact (or_iff_left fun e => Bool.false_ne_true e.1).symm
    | some t =>
      have returns : (q.addAfter now k' d).2 = true := by
        rw [addAfter_snd, admits, ht, Option.isSome_some, Bool.or_true]
      rw [slot_addAfter_of_some hs k' k hz ht]
      split
      · rename_i hk
        exact iff_of_true (.inr (.inl rfl)) (.inr ⟨returns, hk⟩)
      · rename_i hk
        exact (or_iff_left fun e => hk e.2).symm

theorem isWanted_addRateLimited_iff (hs : q.isShutDown = false) (now : Instant) (k' k : K) :
    ((q.addRateLimited now k').1.slot k).IsWanted ↔
      (q.slot k).IsWanted ∨ ((q.addRateLimited now k').2 = true ∧ k' = k) :=
  isWanted_addAfter_iff (q := { q with backoff := q.backoff.fail k' }) hs now k' k _

end WorkQueue

namespace Service

variable {K : Type} [Ord K]

/-- Whether a key is still to be handed out. -/
def Wants [DecidableEq K] (s : Service K) (k : K) : Prop := (s.queue.slot k).IsWanted

variable [Std.TransOrd K] [Std.LawfulEqOrd K] [DecidableEq K] {s : Service K} {a : Deed K} {k : K}

omit [DecidableEq K] in
/-- The key that a deed asks for, now or later. A call that panics asks for none. -/
def wants? (s : Service K) : Deed K → Option K
  | .add k => some k
  | .addAfter k d => if (s.queue.addAfter s.now k d).2 then some k else none
  | .addRateLimited k => if (s.queue.addRateLimited s.now k).2 then some k else none
  | _ => none

/-- A caller that asks gets the head of the line, or nothing changes. -/
theorem wants_receive {q : WorkQueue K} (open_ : q.isShutDown = false)
    (same : q.slot k = s.queue.slot k) (c : Nat) (kept : (q.ask c).1 ≠ .key k) :
    (s.receive c (q.ask c)).Wants k ↔ s.Wants k := by
  rw [Wants, Wants, queue_receive]
  cases hr : q.ready with
  | nil => rw [(WorkQueue.slot_ask_of_nil open_ hr c k).2, same]
  | cons k' rest =>
    obtain ⟨found, shown⟩ := WorkQueue.slot_ask_of_cons open_ hr c k
    have other : ¬ k' = k := by
      rintro rfl
      exact kept found
    rw [shown, if_neg other, same]

/-- **A key is wanted after a deed if it was before or is asked for**, unless a caller got it. -/
theorem wants_next_iff (open_ : s.queue.isShutDown = false) (ha : s.Allows a)
    (not_last : a ≠ .shutDown) (kept : ∀ c, s.hands? a ≠ some (c, k)) :
    (s.next a).Wants k ↔ s.Wants k ∨ s.wants? a = some k := by
  have silent : ¬ (none : Option K) = some k := (Option.some_ne_none k).symm
  -- What an operation that asks for nothing makes of its own key and of others.
  have spared {x : Slot} {q : WorkQueue K} {k' : K}
      (slot : q.slot k = if k' = k then x else s.queue.slot k)
      (same : k' = k → (x.IsWanted ↔ (s.queue.slot k).IsWanted)) :
      (q.slot k).IsWanted ↔ s.Wants k ∨ (none : Option K) = some k := by
    rw [slot, or_iff_left silent]
    split
    · rename_i hk
      exact same hk
    · rfl
  cases a with
  | pass time => exact (or_iff_left silent).symm
  | add k' =>
    refine (WorkQueue.isWanted_add_iff open_ k' k).trans (or_congr_right ?_)
    exact Option.some_inj.symm
  | addAfter k' d =>
    refine (WorkQueue.isWanted_addAfter_iff open_ s.now k' k d).trans (or_congr_right ?_)
    simp only [wants?, Option.ite_none_right_eq_some, Option.some_inj]
  | addRateLimited k' =>
    refine (WorkQueue.isWanted_addRateLimited_iff open_ s.now k' k).trans (or_congr_right ?_)
    simp only [wants?, Option.ite_none_right_eq_some, Option.some_inj]
  | forget k' => exact spared (WorkQueue.slot_forget s.queue k' k) fun _ => Iff.rfl
  | expire k' t =>
    show ((s.queue.expire k' t).slot k).IsWanted ↔ _
    rw [WorkQueue.slot_expire]
    refine Iff.trans ?_ (or_iff_left silent).symm
    split
    · rename_i stands
      exact Slot.isWanted_expire stands.2
    · rfl
  | deliver k' =>
    refine spared (WorkQueue.slot_deliver open_ k' k) fun hk => ?_
    exact Slot.isWanted_deliver (List.count_pos_iff.mpr (hk ▸ ha))
  | ask c =>
    refine (wants_receive open_ rfl c fun found => kept c ?_).trans (or_iff_left silent).symm
    simp only [hands?, found]
  | askAgain c =>
    refine (wants_receive (q := { s.queue with bell := s.queue.bell.resume c }) open_ rfl c
      fun found => kept c ?_).trans (or_iff_left silent).symm
    have found : (s.queue.askAgain c).1 = .key k := found
    simp only [hands?, found]
  | giveUp c => exact (or_iff_left silent).symm
  | done c k' => exact spared (WorkQueue.slot_done s.queue k' k) fun _ => Iff.rfl
  | shutDown => exact absurd rfl not_last

/-- A key that a caller gets was wanted. -/
theorem wants_of_hands {c : Nat} (h : s.hands? a = some (c, k)) (tidy : s.queue.Tidy) :
    s.Wants k := by
  have head {q : WorkQueue K} (ready : q.ready = s.queue.ready) {c' : Nat}
      (got : (q.ask c').1 = .key k) : s.Wants k := by
    obtain ⟨b, he⟩ := WorkQueue.ask_eq q c'
    rw [he] at got
    obtain ⟨rest, -, hr, -⟩ := WorkQueue.take_eq_key (Prod.ext got rfl)
    exact .inl (tidy.dirty k (by rw [← ready, hr]; exact List.mem_cons_self ..))
  cases a with
  | ask c' =>
    simp only [hands?] at h
    split at h
    · rename_i x got
      cases h
      exact head rfl got
    · cases h
  | askAgain c' =>
    simp only [hands?] at h
    split at h
    · rename_i x got
      cases h
      exact head (q := { s.queue with bell := s.queue.bell.resume _ }) rfl got
    · cases h
  | _ => cases h

omit [Std.TransOrd K] [Std.LawfulEqOrd K] in
/-- A queue with nothing in line or in process, no deadline and nothing due wants no key. -/
theorem not_wants_of_empty (h : s.Orderly) (open_ : s.queue.isShutDown = false)
    (ready : s.queue.ready = []) (held : s.held = []) (waiting : s.queue.waiting = ∅)
    (due : s.queue.due = []) (k : K) : ¬ s.Wants k := by
  rintro (dirty | later | owed)
  · rcases h.tidy.placed open_ k dirty with inline | processed
    · rw [ready] at inline
      cases inline
    · obtain ⟨c, hc⟩ := (h.held k).mp processed
      rw [held] at hc
      cases hc
  · have later : (s.queue.waiting.get? k).isSome = true := later
    rw [waiting] at later
    cases later
  · have owed : 0 < s.queue.due.count k := owed
    rw [due] at owed
    cases owed

end Service

end PoolControl
