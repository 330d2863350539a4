import PoolControl.Proofs.Queue.Batch
import PoolControl.Proofs.Queue.Turn
import PoolControl.Proofs.Routing.Resolution
import PoolControl.Trial.Fixture

/-! What the dispatch of an event hands to a queue.

An event comes to nothing if it does not pass or something that it needs cannot be mapped
(`Dispatcher.Drops`). Any other event is handed over whole: all its keys become dirty, and those
that nobody asked for or has line up in order (`handOver_eq`).

The same event may be delivered more than once. Between two deliveries a queue forgets a dirty key
only by handing it out (`Service.dirty_run_of_quiet`), so until somebody asks for a key all of the
event's keys are dirty still, and to dispatch it again changes nothing (`delivers_whole`). -/
namespace PoolControl

/-! ### Until a key is asked for -/

/-- Whether a deed asks for a key. -/
def Deed.asks {K : Type} : Deed K → Bool
  | .ask _ | .askAgain _ => true
  | _ => false

namespace WorkQueue

variable {K : Type} [Ord K] [Std.TransOrd K] [Std.LawfulEqOrd K] [DecidableEq K]
  {q : WorkQueue K} {k : K}

theorem dirty_add (h : k ∈ q.dirty) (k' : K) : k ∈ (q.add k').dirty := by
  have marked : k ∈ q.dirty.add k' := OrderedSet.mem_add.mpr (.inr h)
  rcases add_cases q k' with same | ⟨-, -, -, same⟩ | ⟨-, -, -, same⟩ <;> rw [same]
  · exact h
  · exact marked
  · exact marked

theorem dirty_addAfter (h : k ∈ q.dirty) (now : Instant) (k' : K) (t : Duration) :
    k ∈ (q.addAfter now k' t).1.dirty := by
  rcases addAfter_cases q now k' t with same | ⟨_, _, same⟩ <;> rw [same]
  · exact dirty_add h k'
  · exact h

end WorkQueue

namespace Service

variable {K : Type} [Ord K] [Std.TransOrd K] [Std.LawfulEqOrd K] [DecidableEq K]
  {s : Service K} {k : K}

/-- A dirty key stays dirty unless a key is asked for, whoever does what else. -/
theorem dirty_next_of_quiet (h : k ∈ s.queue.dirty) {a : Deed K} (quiet : a.asks = false) :
    k ∈ (s.next a).queue.dirty := by
  cases a with
  | add k' => exact WorkQueue.dirty_add h k'
  | addAfter k' d => exact WorkQueue.dirty_addAfter h s.now k' d
  | addRateLimited k' =>
    exact WorkQueue.dirty_addAfter (q := { s.queue with backoff := s.queue.backoff.fail k' }) h
      s.now k' (s.queue.backoff.nextDelay k')
  | expire k' t =>
    have same : (s.queue.expire k' t).dirty = s.queue.dirty :=
      congrArg (·.dirty) (WorkQueue.keys_expire s.queue k' t)
    exact same ▸ h
  | deliver k' =>
    exact WorkQueue.dirty_add (q := { s.queue with due := s.queue.due.erase k' }) h k'
  | ask | askAgain => cases quiet
  | done c k' =>
    show k ∈ (s.queue.done k').dirty
    rcases WorkQueue.done_cases s.queue k' with ⟨-, same⟩ | ⟨-, -, same⟩ <;> rw [same] <;> exact h
  | _ => exact h

theorem dirty_run_of_quiet (h : k ∈ s.queue.dirty) {l : List (Deed K)}
    (quiet : ∀ a ∈ l, a.asks = false) : k ∈ (s.run l).queue.dirty :=
  system.run_keeps (I := fun s => k ∈ s.queue.dirty) h fun mem h =>
    dirty_next_of_quiet h (quiet _ mem)

end Service

/-! ### One event -/

namespace Dispatcher

variable {S : Type} [Resource S] {d : Dispatcher S} {caches : Caches} {e : Event S}
  {q : WorkQueue Key}

/-- Whether an event comes to nothing: it does not pass, or something that it needs cannot be
mapped. -/
def Drops (d : Dispatcher S) (caches : Caches) (e : Event S) : Prop :=
  d.predicate.keeps caches.clusters e = false ∨ d.handler.Fails caches e

theorem mem_keys_iff {k : Key} : k ∈ d.keys caches e ↔
    d.predicate.keeps caches.clusters e = true ∧
      ∃ ks, d.handler.keys caches e = .ok ks ∧ k ∈ ks := by
  unfold keys
  split
  · rename_i passes
    rw [and_iff_right passes]
    cases d.handler.keys caches e with
    | ok ks => exact ⟨fun mem => ⟨ks, rfl, mem⟩, fun ⟨_, same, mem⟩ => Except.ok.inj same ▸ mem⟩
    | error err => exact iff_of_false OrderedSet.not_mem_empty fun ⟨_, failed, _⟩ => by cases failed
  · rename_i dropped
    exact iff_of_false OrderedSet.not_mem_empty fun h => dropped h.1

theorem mem_keys_of_ok {k : Key} {ks : OrderedSet Key} (mapped : d.handler.keys caches e = .ok ks) :
    k ∈ d.keys caches e ↔ d.predicate.keeps caches.clusters e = true ∧ k ∈ ks := by
  simp only [mem_keys_iff, mapped, Except.ok.injEq, exists_eq_left']

theorem keys_of_drops (h : d.Drops caches e) : d.keys caches e = ∅ := by
  refine OrderedSet.ext_mem fun k => iff_of_false (fun mem => ?_) OrderedSet.not_mem_empty
  obtain ⟨passes, ks, mapped, -⟩ := mem_keys_iff.mp mem
  rcases h with stopped | fails
  · exact absurd stopped (Bool.ne_false_iff.mpr passes)
  · exact Handler.not_fails_of_keys mapped fails

theorem keys_of_not_drops (h : ¬ d.Drops caches e) :
    d.handler.keys caches e = .ok (d.keys caches e) ∧
      ∀ k, k ∈ d.keys caches e ↔ d.handler.Triggers caches e k := by
  obtain ⟨passes, maps⟩ := not_or.mp h
  rcases d.handler.fails_or_keys caches e with ⟨fails, -⟩ | ⟨-, ks, mapped, mem⟩
  · exact absurd fails maps
  · have same : d.keys caches e = ks := OrderedSet.ext_mem fun k =>
      (mem_keys_of_ok mapped).trans (and_iff_right (Bool.ne_false_iff.mp passes))
    exact same ▸ ⟨mapped, mem⟩

theorem handOver_of_drops (h : d.Drops caches e) (q : WorkQueue Key) :
    d.handOver caches e q = (0, q) := by
  rw [handOver, dispatch, keys_of_drops h]
  rfl

/-- What an open queue is handed. -/
theorem handOver_eq (hs : q.isShutDown = false) :
    d.handOver caches e q = ((d.keys caches e).size,
      let ks := d.keys caches e
      { q with
        ready := q.ready ++ q.joining (OrderedSet.elements ks)
        dirty := OrderedSet.union q.dirty ks
        bell := Bell.ring^[(q.joining (OrderedSet.elements ks)).length] q.bell }) :=
  congrArg (Prod.mk _) (WorkQueue.addAll_elements hs _)

/-- Keys that are dirty already change nothing. -/
theorem handOver_of_dirty (h : ∀ k ∈ d.keys caches e, k ∈ q.dirty) :
    d.handOver caches e q = ((d.keys caches e).size, q) :=
  congrArg (Prod.mk _) (WorkQueue.addAll_of_dirty fun k hk => h k (OrderedSet.mem_elements.mp hk))

theorem dirty_handOver (hs : q.isShutDown = false) {k : Key} (hk : k ∈ d.keys caches e) :
    k ∈ (d.handOver caches e q).2.dirty :=
  (WorkQueue.mem_dirty_addAll hs _).mpr (.inr (OrderedSet.mem_elements.mpr hk))

end Dispatcher

/-- **An event is handed over whole or not at all, and once is as good as twice.** If it does not
pass, or one of the objects that are mapped for it cannot be, an open queue stays as it is. Else
the queue is handed the handler's keys: they become dirty, and those that were neither dirty nor
being processed line up in their order, each with a call to those who wait. Whatever happens next,
until a key is asked for the same event counts the same and changes nothing. -/
theorem delivers_whole {S : Type} [Resource S] (d : Dispatcher S) (caches : Caches) (e : Event S)
    (q : WorkQueue Key) (hs : q.isShutDown = false) :
    let passes := d.predicate.keeps caches.clusters e
    let handed := d.handOver caches e q
    (passes = false ∨ d.handler.Fails caches e → handed = (0, q)) ∧
      (passes = true → ¬ d.handler.Fails caches e → ∃ ks : OrderedSet Key,
        d.handler.keys caches e = .ok ks ∧
          (∀ k, k ∈ ks ↔ d.handler.Triggers caches e k) ∧
          let joining := (OrderedSet.elements ks).filter fun k => k ∉ q.dirty ∧ k ∉ q.processing
          joining.Pairwise (fun k k' => compare k k' = .lt) ∧
            (∀ k, k ∈ handed.2.dirty ↔ k ∈ q.dirty ∨ k ∈ ks) ∧
            handed = (OrderedMap.size ks, { q with
              ready := q.ready ++ joining
              dirty := handed.2.dirty
              bell := Bell.ring^[joining.length] q.bell })) ∧
      ∀ (s : Service Key) (l : List (Deed Key)), s.queue = handed.2 → (∀ a ∈ l, a.asks = false) →
        d.handOver caches e (s.run l).queue = (handed.1, (s.run l).queue) := by
  intro passes handed
  refine ⟨fun drops => d.handOver_of_drops drops q, fun pass maps => ?_, fun s l after quiet => ?_⟩
  · have delivered : ¬ d.Drops caches e := not_or.mpr ⟨Bool.ne_false_iff.mpr pass, maps⟩
    obtain ⟨mapped, triggers⟩ := Dispatcher.keys_of_not_drops delivered
    have same : handed = _ := Dispatcher.handOver_eq hs
    refine ⟨d.keys caches e, mapped, triggers, (OrderedSet.increasing_elements _).filter _,
      fun k => ?_, same.trans ?_⟩
    · rw [same]
      exact OrderedSet.mem_union
    · rw [same]
      rfl
  · refine Dispatcher.handOver_of_dirty fun k hk => ?_
    have dirty : k ∈ s.queue.dirty := after ▸ Dispatcher.dirty_handOver hs hk
    exact Service.dirty_run_of_quiet dirty quiet

/-- A machine goes over from a worker that is being processed to an idle one, behind another key in
line. The first worker comes later, when it is given back, and by then the same event still changes
nothing. Had the old machine had two plain references, neither worker would be queued. -/
theorem delivers_whole_handed_over :
    let a := Trial.Fixture.worker "tenant" "a" default
    let b := Trial.Fixture.worker "tenant" "b" default
    let other : Key := ⟨"tenant", "other"⟩
    let plain (w : Worker) := { Resource.controllerReference w with controller := false }
    let refer (owners : List OwnerReference) : Machine :=
      Resource.mapMetadata (fun m => { m with owners })
        (Trial.Fixture.machine a "set" "machine" default .ready none)
    let after := refer [Resource.controllerReference b]
    let e : Event Machine := .updated (refer [Resource.controllerReference a]) after
    let spoilt : Event Machine := .updated (refer [plain a, plain b]) after
    let caches : Caches := { (default : Caches) with workers := (Store.put ∅ a).put b }
    let d : Dispatcher Machine := ⟨.always, .mapped (Mapping.ownerOf Worker .always) .both⟩
    let before : Service Key := (Service.opened default).run [.add a.key, .ask 0, .add other]
    let handed := d.handOver caches e before.queue
    let s : Service Key := { before with queue := handed.2 }
    let later := (s.run [.add b.key, .done 0 a.key]).queue
    handed.1 = 2 ∧ handed.2.ready = [other, b.key] ∧ a.key ∈ handed.2.dirty ∧
      later.ready = [other, b.key, a.key] ∧ d.handOver caches e later = (2, later) ∧
      d.handOver caches spoilt before.queue = (0, before.queue) := by
  intro a b other plain refer after e spoilt caches d before handed s later
  have hs : before.queue.isShutDown = false := by decide
  have mapped : d.handler.keys caches e = .ok (OrderedSet.ofElements [a.key, b.key]) := by decide
  have spoils : d.handler.Fails caches spoilt := by
    refine ⟨refer [plain a, plain b], ?_, .ambiguousOwner ⟨"tenant", "machine"⟩ Kind.worker 2, ?_⟩
    · exact List.mem_cons_of_mem _ (List.mem_singleton_self _)
    · decide
  obtain ⟨-, whole, again⟩ := delivers_whole d caches e before.queue hs
  obtain ⟨ks, mapped', -, -, dirty, same⟩ := whole rfl (Handler.not_fails_of_keys mapped)
  obtain rfl := Except.ok.inj (mapped.symm.trans mapped')
  have size : OrderedMap.size (OrderedSet.ofElements [a.key, b.key]) = 2 := by decide
  have joining : ((OrderedSet.ofElements [a.key, b.key]).elements.filter fun k =>
    k ∉ before.queue.dirty ∧ k ∉ before.queue.processing) = [b.key] := by decide
  have count : handed.1 = 2 := (congrArg Prod.fst same).trans size
  refine ⟨count, ?_, (dirty a.key).mpr (.inr (by decide)), by decide, ?_, ?_⟩
  · calc handed.2.ready = before.queue.ready ++ _ := congrArg (·.2.ready) same
      _ = [other] ++ [b.key] := congrArg₂ (· ++ ·) (by decide) joining
  · rw [← count]
    exact again s _ rfl (by decide)
  · exact (delivers_whole d caches spoilt before.queue hs).1 (.inr spoils)

end PoolControl
