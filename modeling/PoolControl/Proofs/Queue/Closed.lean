import PoolControl.Proofs.Queue.Bell
import PoolControl.Proofs.Queue.Delay

/-! A queue after it was shut down.

Nothing happens to a closed queue but that callers give back the keys they have. What was in line
stays there and is not handed out, no timer finds its deadline standing, and whoever asks is told
that the queue is shut down. `Drains` says what a sequence of deeds leaves of a closed queue:
`drains_next` for one deed, `drains_run` for all. -/
namespace PoolControl

namespace WorkQueue

variable {K : Type} [Ord K]

/-- A queue that was shut down has no delayed adds, and nobody waits for its bell. -/
structure Closed (q : WorkQueue K) : Prop where
  shut : q.isShutDown = true
  waiting : q.waiting = ∅
  nobody : q.bell.waiting = []

theorem closed_shutDown (q : WorkQueue K) : q.shutDown.Closed := ⟨rfl, rfl, rfl⟩

theorem Closed.of_same {q q' : WorkQueue K} (h : q.Closed) (hs : q'.isShutDown = q.isShutDown)
    (hw : q'.waiting = q.waiting) (hb : q'.bell.waiting = []) : q'.Closed :=
  ⟨hs.trans h.shut, hw.trans h.waiting, hb⟩

/-! ### What the operations do to a closed queue -/

variable [Std.TransOrd K] [Std.LawfulEqOrd K] {q : WorkQueue K}

theorem addAfter_of_shutDown (h : q.isShutDown = true) (now : Instant) (k : K) (d : Duration) :
    (q.addAfter now k d).1 = q := by
  unfold addAfter
  split
  · exact add_of_shutDown k h
  · split
    · rfl
    · simp [h]

/-- A caller that asks enrolls and leaves at once. -/
theorem ask_of_shutDown (h : q.isShutDown = true) (c : Nat) :
    q.ask c = (.shutDown, { q with bell := (q.bell.enroll c).leave c }) := by
  rw [ask_of_found (by simp [take_of_shutDown h]), take_of_shutDown h]

omit [Std.TransOrd K] [Std.LawfulEqOrd K] in
theorem done_of_shutDown (h : q.isShutDown = true) (k : K) :
    q.done k = { q with processing := q.processing.erase k } := by
  unfold done
  simp [h]

omit [Std.TransOrd K] [Std.LawfulEqOrd K] in
/-- No deadline stands, so timers only go away. -/
theorem Closed.expire [DecidableEq K] (h : q.Closed) (k : K) (t : Instant) :
    q.expire k t = { q with timers := q.timers.erase (k, t) } := by
  refine expire_of_stale (Bool.of_not_eq_true fun stands => ?_)
  have stands := stands_iff.mp stands
  rw [h.waiting] at stands
  cases stands

end WorkQueue

namespace Service

variable {K : Type} [Ord K]

/-- What a sequence of deeds leaves of a service whose queue is closed. -/
structure Drains (s : Service K) (l : List (Deed K)) (s' : Service K) : Prop where
  closed : s'.queue.Closed
  ready : s'.queue.ready = s.queue.ready
  dirty : s'.queue.dirty = s.queue.dirty
  processing : ∀ k, k ∈ s'.queue.processing ↔ k ∈ s.queue.processing ∧ ∀ c, .done c k ∉ l
  held : ∀ e ∈ s'.held, e ∈ s.held

namespace Drains

variable {s s' s'' : Service K} {l l' : List (Deed K)}

theorem refl (h : s.queue.Closed) : s.Drains [] s :=
  ⟨h, rfl, rfl, fun _ => (and_iff_left fun _ => List.not_mem_nil).symm, fun _ => id⟩

theorem trans (h : s.Drains l s') (h' : s'.Drains l' s'') : s.Drains (l ++ l') s'' := by
  refine ⟨h'.closed, h'.ready.trans h.ready, h'.dirty.trans h.dirty, fun k => ?_,
    fun e he => h.held e (h'.held e he)⟩
  simp only [h'.processing, h.processing, List.mem_append, not_or, and_assoc, forall_and]

/-- A deed that gives no key back leaves the keys alone. -/
theorem of_same {a : Deed K} (closed : s'.queue.Closed) (ready : s'.queue.ready = s.queue.ready)
    (dirty : s'.queue.dirty = s.queue.dirty) (processing : s'.queue.processing = s.queue.processing)
    (held : s'.held = s.held) (keeps : ∀ c k, a ≠ .done c k) : s.Drains [a] s' := by
  refine ⟨closed, ready, dirty, fun k => ?_, fun e he => held ▸ he⟩
  have none_ : ∀ c, Deed.done c k ∉ [a] := fun c mem => keeps c k (List.mem_singleton.mp mem).symm
  rw [processing]
  exact (and_iff_left none_).symm

end Drains

variable [Std.TransOrd K] [Std.LawfulEqOrd K] [DecidableEq K] {s : Service K}

omit [DecidableEq K] in
/-- A caller that asks a closed queue gets no key. -/
theorem drains_ask (h : s.queue.Closed) {b : Bell} (nobody : b.waiting = []) {c : Nat} {a : Deed K}
    (keeps : ∀ c k, a ≠ .done c k) :
    s.Drains [a] (s.receive c (WorkQueue.ask c { s.queue with bell := b })) := by
  rw [WorkQueue.ask_of_shutDown (q := { s.queue with bell := b }) h.shut]
  exact .of_same (h.of_same rfl rfl (Bell.waiting_leave_enroll nobody c)) rfl rfl rfl rfl keeps

/-- **One deed drains a closed queue.** -/
theorem drains_next (h : s.queue.Closed) (a : Deed K) : s.Drains [a] (s.next a) := by
  have stays {q : WorkQueue K} (same : q = s.queue) {a : Deed K}
      (keeps : ∀ c k, a ≠ .done c k) : s.Drains [a] { s with queue := q } := by
    subst same
    exact .of_same h rfl rfl rfl rfl keeps
  cases a with
  | pass time => exact .of_same h rfl rfl rfl rfl (by simp)
  | add k => exact stays (WorkQueue.add_of_shutDown k h.shut) (by simp)
  | addAfter k d => exact stays (WorkQueue.addAfter_of_shutDown h.shut s.now k d) (by simp)
  | addRateLimited k =>
    have later : (s.queue.addRateLimited s.now k).1 =
        { s.queue with backoff := s.queue.backoff.fail k } :=
      WorkQueue.addAfter_of_shutDown (q := { s.queue with backoff := s.queue.backoff.fail k })
        h.shut s.now k _
    refine .of_same ?_ ?_ ?_ ?_ rfl (by simp) <;> simp only [next, later]
    exact h.of_same rfl rfl h.nobody
  | forget k => exact .of_same (h.of_same rfl rfl h.nobody) rfl rfl rfl rfl (by simp)
  | expire k t =>
    have gone : s.next (.expire k t) =
        { s with queue := { s.queue with timers := s.queue.timers.erase (k, t) } } := by
      rw [next, h.expire]
    rw [gone]
    exact .of_same (h.of_same rfl rfl h.nobody) rfl rfl rfl rfl (by simp)
  | deliver k =>
    have gone : s.next (.deliver k) =
        { s with queue := { s.queue with due := s.queue.due.erase k } } := by
      rw [next, WorkQueue.deliver, WorkQueue.add_of_shutDown k (by exact h.shut)]
    rw [gone]
    exact .of_same (h.of_same rfl rfl h.nobody) rfl rfl rfl rfl (by simp)
  | ask c => exact drains_ask h h.nobody (by simp)
  | askAgain c => exact drains_ask h (b := s.queue.bell.resume c) h.nobody (by simp)
  | giveUp c =>
    have nobody : (s.queue.bell.leave c).waiting = [] :=
      Bell.waiting_leave (by rw [h.nobody]; rfl)
    exact .of_same (h.of_same rfl rfl nobody) rfl rfl rfl rfl (by simp)
  | done c k =>
    have back : s.queue.done k = { s.queue with processing := s.queue.processing.erase k } :=
      WorkQueue.done_of_shutDown h.shut k
    refine ⟨?_, ?_, ?_, fun k' => ?_, fun e => List.mem_of_mem_erase⟩ <;> simp only [next, back]
    · exact h.of_same rfl rfl h.nobody
    · have other : (∀ c', Deed.done c' k' ∉ [.done c k]) ↔ k' ≠ k := by
        simp only [List.mem_singleton, Deed.done.injEq, not_and]
        exact ⟨fun e => e c rfl, fun ne _ _ => ne⟩
      rw [other, and_comm]
      exact OrderedSet.mem_erase
  | shutDown => exact .of_same (WorkQueue.closed_shutDown _) rfl rfl rfl rfl (by simp)

/-- **A closed queue drains, whatever happens to it.** -/
theorem drains_run (h : s.queue.Closed) (l : List (Deed K)) : s.Drains l (s.run l) := by
  induction l generalizing s with
  | nil => exact .refl h
  | cons a rest ih =>
    have first := drains_next h a
    exact first.trans (ih first.closed)

/-- Along a lawful run, those who give keys back had them when the queue was closed. -/
theorem held_of_returned (h : s.queue.Closed) {l : List (Deed K)} (lawful : s.Lawful l) {c : Nat}
    {k : K} (returned : .done c k ∈ l) : (c, k) ∈ s.held := by
  obtain ⟨front, back, rfl⟩ := List.append_of_mem returned
  exact (drains_run h front).held _ ((lawful_append ..).mp lawful).2.1

/-- **A queue that is shut down is dead.** Whatever went on before, and whatever happens later,
callers get no key and do not wait, the keys in line and the dirty keys stay what they were, no
delayed add is pending and no timer adds its key. The keys in process are those that nobody gave
back. If only callers give keys back that have them, these are the keys whose holders never do. -/
theorem dead_once_shut (p : Backoff.Policy) (before after : List (Deed K)) :
    let s := (opened p).run before
    let u := (s.next .shutDown).run after
    (∀ c, (u.queue.ask c).1 = .shutDown ∧ (u.queue.askAgain c).1 = .shutDown) ∧
      u.queue.bell.waiting = [] ∧
      u.queue.ready = s.queue.ready ∧ u.queue.dirty = s.queue.dirty ∧
      u.queue.waiting = ∅ ∧
      (∀ k t, u.queue.expire k t = { u.queue with timers := u.queue.timers.erase (k, t) }) ∧
      (∀ k, u.queue.deliver k = { u.queue with due := u.queue.due.erase k }) ∧
      (∀ k, k ∈ u.queue.processing ↔ k ∈ s.queue.processing ∧ ∀ c, .done c k ∉ after) ∧
      (∀ e ∈ u.held, e ∈ s.held) ∧
      ((opened p).Lawful (before ++ .shutDown :: after) →
        ∀ k, k ∈ u.queue.processing ↔ ∃ c, (c, k) ∈ s.held ∧ .done c k ∉ after) := by
  intro s u
  have shut : (s.next .shutDown).queue.Closed := WorkQueue.closed_shutDown s.queue
  have drained : (s.next .shutDown).Drains after u := drains_run shut after
  have closed : u.queue.Closed := drained.closed
  have asks (c : Nat) (b : Bell) :
      (WorkQueue.ask c { u.queue with bell := b }).1 = .shutDown := by
    rw [WorkQueue.ask_of_shutDown (q := { u.queue with bell := b }) closed.shut]
  refine ⟨fun c => ⟨asks c u.queue.bell, asks c (u.queue.bell.resume c)⟩, closed.nobody,
    drained.ready, drained.dirty, closed.waiting, closed.expire,
    fun k => WorkQueue.add_of_shutDown k (by exact closed.shut), drained.processing, drained.held,
    fun lawful k => ?_⟩
  obtain ⟨lawful, -, returns⟩ := (lawful_append ..).mp lawful
  have orderly : s.Orderly := (orderly_opened p).run lawful
  rw [drained.processing]
  refine (and_congr_left' (orderly.held k)).trans ⟨?_, ?_⟩
  · rintro ⟨⟨c, held⟩, kept⟩
    exact ⟨c, held, kept c⟩
  · rintro ⟨c, held, kept⟩
    refine ⟨⟨c, held⟩, fun c' returned => kept ?_⟩
    have same : c' = c := orderly.holder_unique (held_of_returned shut returns returned) held
    exact same ▸ returned

/-- A key is added, handed out and added again, and two delayed adds are pending, when the queue
is shut down. Neither the key that is given back nor the timers bring anything up. -/
theorem dead_once_shut_delayed :
    let before : List (Deed Nat) := [.add 5, .add 7, .ask 0, .add 5, .ask 1,
      .addAfter 9 (.ofSecs 1), .addAfter 11 (.ofSecs 2), .pass 2000000000, .expire 9 1000000000]
    let after : List (Deed Nat) := [.deliver 9, .done 0 5, .expire 11 2000000000,
      .addAfter 3 (.ofSecs 1), .add 3, .ask 0]
    let s := (opened default).run before
    let u := (s.next .shutDown).run after
    (opened default).Lawful (before ++ .shutDown :: after) ∧ s.queue.processing.elements = [5, 7] ∧
      u.queue.ready = [] ∧
      ∀ k, k ∈ u.queue.processing ↔ ∃ c, (c, k) ∈ s.held ∧ .done c k ∉ after := by
  intro before after
  have lawful : (opened default).Lawful (before ++ .shutDown :: after) := by decide
  obtain ⟨-, -, ready, -, -, -, -, -, -, processing⟩ := dead_once_shut default before after
  exact ⟨lawful, by decide, ready.trans (by decide), processing lawful⟩

end Service

end PoolControl
