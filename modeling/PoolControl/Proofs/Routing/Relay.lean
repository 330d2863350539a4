import PoolControl.Proofs.Api.Feed
import PoolControl.Proofs.Queue.Turn
import PoolControl.Routing.Dispatch
import PoolControl.Trial.Fixture

/-! From the API to the callers of a queue.

A `Relay` is a tracker that is written to, a feed that one watcher takes events from, a
dispatcher that queues the key of every event that passes its predicate, and callers that
get a key, read its object and give it back. Writes, takes, dispatches, reads and all that
may happen to a queue are interleaved at will.

`nothing_lost` follows one dispatched event. Its key stays dirty until a caller gets it, and
what that caller reads is at least as new as the event, also if the event came while the key
was in line or in another caller's hands. -/
namespace PoolControl

/-! ### Dispatching -/

/-- The key of an event that passes is queued. -/
theorem Dispatcher.dispatch_self {K : Type} [Resource K] (p : Predicate) (caches : Caches)
    (e : Event K) (q : WorkQueue Key) :
    (⟨p, .self⟩ : Dispatcher K).dispatch caches e q =
      if p.keeps caches.clusters e then q.add e.key else q := by
  unfold dispatch keys
  split <;> rfl

/-! ### The relay -/

structure Relay (K : Type) where
  tracker : Tracker K
  predicate : Predicate
  /-- The event that was taken from the feed and is to be dispatched. -/
  arrived : Option (Event K)
  service : Service Key
  /-- The keys whose objects are to be read yet, each with the caller that got it. -/
  unread : List (Nat × Key)

namespace Relay

/-- What may happen to a relay. -/
inductive Act (K : Type)
  | create (now : Timestamp) (x : K)
  | modify (k : Key) (change : K → K)
  | delete (now : Timestamp) (k : Key)
  | resync
  | watch
  /-- The next event of the feed is taken. -/
  | take
  /-- The event that was taken is dispatched. -/
  | dispatch (caches : Caches)
  | serve (a : Deed Key)
  /-- A caller reads the object of a key that it got. -/
  | read (c : Nat) (k : Key)

variable {K : Type}

/-- No objects, no feed, and an empty queue. -/
def start (p : Predicate) (b : Backoff.Policy) : Relay K := ⟨∅, p, none, .opened b, []⟩

/-- When an act can happen. There is one feed, callers read before they give back, and the
queue is not shut down. -/
def Allows (r : Relay K) : Act K → Prop
  | .watch => r.tracker.feeds.length = 0
  | .take => r.arrived.isNone = true ∧ (r.tracker.pending 0).isEmpty = false
  | .dispatch _ => r.arrived.isSome = true
  | .serve .shutDown => False
  | .serve (.done c k) => r.service.Allows (.done c k) ∧ (c, k) ∉ r.unread
  | .serve a => r.service.Allows a
  | .read c k => (c, k) ∈ r.unread
  | _ => True

instance (r : Relay K) : DecidablePred r.Allows := fun a => by
  cases a with
  | serve b => cases b <;> simp only [Allows] <;> infer_instance
  | _ => simp only [Allows]; infer_instance

variable [Resource K]

/-- What an act makes of a relay. -/
def next (r : Relay K) : Act K → Relay K
  | .create now x => { r with tracker := (r.tracker.create now x).2 }
  | .modify k change => { r with tracker := (r.tracker.modify k change).2 }
  | .delete now k => { r with tracker := (r.tracker.delete now k).2 }
  | .resync => { r with tracker := r.tracker.resync }
  | .watch => { r with tracker := r.tracker.watch 0 }
  | .take => { r with tracker := r.tracker.advance 0 1, arrived := (r.tracker.pending 0).head? }
  | .dispatch caches =>
    match r.arrived with
    | none => r
    | some e =>
      { r with
        arrived := none
        service := { r.service with
          queue := (⟨r.predicate, .self⟩ : Dispatcher K).dispatch caches e r.service.queue } }
  | .serve a =>
    { r with
      service := r.service.next a
      unread := (r.service.hands? a).toList ++ r.unread }
  | .read c k => { r with unread := r.unread.erase (c, k) }

abbrev system : System (Relay K) (Act K) := ⟨next, Allows⟩

def run (r : Relay K) (l : List (Act K)) : Relay K := system.run r l

/-- Every act of a run can happen when its turn comes. -/
abbrev Lawful (r : Relay K) (l : List (Act K)) : Prop := system.Lawful r l

instance (r : Relay K) : DecidablePred (system.Allows r) := inferInstanceAs (DecidablePred r.Allows)

theorem run_append (r : Relay K) (l l' : List (Act K)) : r.run (l ++ l') = (r.run l).run l' :=
  system.run_append r l l'

theorem lawful_append (r : Relay K) (l l' : List (Act K)) :
    r.Lawful (l ++ l') ↔ r.Lawful l ∧ (r.run l).Lawful l' :=
  system.throughout_append Allows r l l'

/-! ### Soundness -/

/-- A relay in order: no event that is under way tells of anything newer than the store. -/
structure Sound (r : Relay K) : Prop where
  dated : r.tracker.Dated
  waits : ∀ e, r.tracker.Waits e → r.tracker.Settled e
  arrived : ∀ e, r.arrived = some e → r.tracker.Settled e
  orderly : r.service.Orderly
  open_ : r.service.queue.isShutDown = false

theorem sound_start (p : Predicate) (b : Backoff.Policy) : (start p b : Relay K).Sound where
  dated := Tracker.dated_empty
  waits _ h := by
    obtain ⟨_, hf, _⟩ := h
    cases hf
  arrived _ h := by cases h
  orderly := Service.orderly_opened b
  open_ := rfl

variable {r : Relay K}

/-- Whatever happens, the tracker becomes what it can become by requests. -/
theorem Sound.succeeds (h : r.Sound) (a : Act K) : r.tracker.Succeeds (r.next a).tracker := by
  cases a with
  | create now x => exact Tracker.succeeds_answer h.dated (.create now x)
  | modify k change => exact Tracker.succeeds_answer h.dated (.modify k change)
  | delete now k => exact Tracker.succeeds_answer h.dated (.delete now k)
  | resync => exact Tracker.succeeds_resync h.dated
  | watch => exact Tracker.succeeds_watch h.dated 0
  | take => exact Tracker.succeeds_advance h.dated 0 1
  | dispatch caches =>
    simp only [next]
    split <;> exact .refl h.dated
  | serve a => exact .refl h.dated
  | read c k => exact .refl h.dated

/-- What happens to the queue when an act happens. -/
def deed? (r : Relay K) : Act K → Option (Deed Key)
  | .dispatch caches =>
    r.arrived.bind fun e =>
      if r.predicate.keeps caches.clusters e then some (.add e.key) else none
  | .serve a => some a
  | _ => none

theorem service_next (r : Relay K) (a : Act K) :
    (r.next a).service = (r.deed? a).elim r.service r.service.next := by
  cases a with
  | dispatch caches =>
    cases ha : r.arrived with
    | none => simp only [next, deed?, ha, Option.bind_none, Option.elim_none]
    | some e =>
      simp only [next, deed?, ha, Dispatcher.dispatch_self, Option.bind_some]
      split <;> rfl
  | _ => rfl

theorem allows_deed {a : Act K} (ha : r.Allows a) {b : Deed Key} (hb : r.deed? a = some b) :
    r.service.Allows b ∧ b ≠ .shutDown := by
  cases a with
  | dispatch caches =>
    obtain ⟨e, _, he⟩ := Option.bind_eq_some_iff.mp hb
    split at he
    · rw [← Option.some.inj he]
      exact ⟨trivial, by simp⟩
    · cases he
  | serve b' =>
    rw [← Option.some.inj hb]
    cases b' with
    | done c k => exact ⟨ha.1, by simp⟩
    | shutDown => cases ha
    | _ => exact ⟨ha, by simp⟩
  | _ => cases hb

theorem predicate_next (r : Relay K) (a : Act K) : (r.next a).predicate = r.predicate := by
  cases a with
  | dispatch caches =>
    simp only [next]
    split <;> rfl
  | _ => rfl

theorem predicate_run (r : Relay K) (l : List (Act K)) : (r.run l).predicate = r.predicate :=
  system.run_keeps (I := fun r' => r'.predicate = r.predicate) rfl fun _ h =>
    (predicate_next _ _).trans h

/-- Keys are handed out only when the queue is asked. -/
theorem serve_of_hands {a : Act K} {b : Deed Key} (hb : r.deed? a = some b) {x : Nat × Key}
    (hx : r.service.hands? b = some x) : a = .serve b := by
  cases a with
  | dispatch caches =>
    obtain ⟨e, _, he⟩ := Option.bind_eq_some_iff.mp hb
    split at he
    · rw [← Option.some.inj he] at hx
      cases hx
    · cases he
  | serve b' => rw [Option.some.inj hb]
  | _ => cases hb

theorem Sound.next (h : r.Sound) {a : Act K} (ha : r.Allows a) : (r.next a).Sound := by
  have succeeds := h.succeeds a
  have arrived (e : Event K) (he : (r.next a).arrived = some e) :
      r.arrived = some e ∨ r.tracker.Waits e := by
    cases a with
    | take => exact .inr (Tracker.waits_of_pending (List.mem_of_head? he))
    | dispatch caches =>
      cases hr : r.arrived with
      | none =>
        simp only [Relay.next, hr] at he
        cases he
      | some e' =>
        simp only [Relay.next, hr] at he
        cases he
    | _ => exact .inl he
  have service : (r.next a).service.Orderly ∧ (r.next a).service.queue.isShutDown = false := by
    rw [service_next]
    cases hb : r.deed? a with
    | none => exact ⟨h.orderly, h.open_⟩
    | some b =>
      obtain ⟨allowed, open_⟩ := allows_deed ha hb
      exact ⟨h.orderly.next allowed, (Service.isShutDown_next _ open_).trans h.open_⟩
  refine ⟨succeeds.dated, fun e he => ?_, fun e he => ?_, service.1, service.2⟩
  · exact (succeeds.waits e he).elim (fun old => (h.waits e old).succeeds succeeds) id
  · exact ((arrived e he).elim (h.arrived e) (h.waits e)).succeeds succeeds

theorem Sound.run (h : r.Sound) {l : List (Act K)} (hl : r.Lawful l) : (r.run l).Sound :=
  hl.keeps (fun h ha => h.next ha) h

/-! ### One event -/

/-- What an event tells never becomes newer than the store. -/
theorem Sound.settled_run (h : r.Sound) {l : List (Act K)} (hl : r.Lawful l) {e : Event K}
    (he : r.tracker.Settled e) : (r.run l).tracker.Settled e :=
  (hl.keeps (I := fun r => r.Sound ∧ r.tracker.Settled e)
    (fun h ha => ⟨h.1.next ha, h.2.succeeds (h.1.succeeds _)⟩) ⟨h, he⟩).2

/-- A dirty key is dirty until a caller gets it. -/
theorem Sound.dirty_run (h : r.Sound) {l : List (Act K)} (hl : r.Lawful l) {k : Key}
    (hk : k ∈ r.service.queue.dirty) :
    k ∈ (r.run l).service.queue.dirty ∨ ∃ mid a rest c, l = mid ++ .serve a :: rest ∧
      (r.run mid).service.hands? a = some (c, k) := by
  induction l generalizing r with
  | nil => exact .inl hk
  | cons a rest ih =>
    have first : k ∈ (r.next a).service.queue.dirty ∨
        ∃ b c, a = .serve b ∧ r.service.hands? b = some (c, k) := by
      rw [service_next]
      cases hb : r.deed? a with
      | none => exact .inl hk
      | some b =>
        obtain ⟨allowed, open_⟩ := allows_deed hl.1 hb
        refine (Service.dirty_next h.orderly h.open_ allowed open_ hk).imp id ?_
        rintro ⟨c, hc⟩
        exact ⟨b, c, serve_of_hands hb hc, hc⟩
    rcases first with still | ⟨b, c, rfl, hc⟩
    · refine (ih (h.next hl.1) hl.2 still).imp id ?_
      rintro ⟨mid, b, rest', c, rfl, hc⟩
      exact ⟨a :: mid, b, rest', c, rfl, hc⟩
    · exact .inr ⟨[], b, rest, c, rfl, hc⟩

/-- A caller that got a key reads its object, unless it has not done so yet. -/
theorem unread_run (r : Relay K) {l : List (Act K)} {c : Nat} {k : Key} (h : (c, k) ∈ r.unread) :
    (c, k) ∈ (r.run l).unread ∨ .read c k ∈ l := by
  induction l generalizing r with
  | nil => exact .inl h
  | cons a rest ih =>
    have first : (c, k) ∈ (r.next a).unread ∨ a = .read c k := by
      cases a with
      | serve b => exact .inl (List.mem_append_right _ h)
      | read c' k' =>
        by_cases same : (c', k') = (c, k)
        · rw [(Prod.mk.inj same).1, (Prod.mk.inj same).2]
          exact .inr rfl
        · exact .inl ((List.mem_erase_of_ne (Ne.symm same)).mpr h)
      | dispatch caches =>
        refine .inl ?_
        simp only [next]
        split <;> exact h
      | _ => exact .inl h
    rcases first with still | rfl
    · exact (ih _ still).imp id (List.mem_cons_of_mem _)
    · exact .inr (List.mem_cons_self ..)

/-- **No event is lost.** The key of a dispatched event that passed is dirty, or a caller got
it after the dispatch. That caller is still to read the object or has read it, and whatever
it reads is gone or at least as new as the event. -/
theorem nothing_lost (p : Predicate) (b : Backoff.Policy) (before after : List (Act K))
    (caches : Caches) (e : Event K)
    (hl : (start p b).Lawful (before ++ .dispatch caches :: after))
    (arrived : ((start p b).run before).arrived = some e)
    (keeps : p.keeps caches.clusters e = true) :
    let s := (start p b).run (before ++ .dispatch caches :: after)
    e.key ∈ s.service.queue.dirty ∨
      ∃ mid a rest c, after = mid ++ .serve a :: rest ∧
        ((start p b).run (before ++ .dispatch caches :: mid)).service.hands? a = some (c, e.key) ∧
        ((c, e.key) ∈ s.unread ∨ .read c e.key ∈ rest) ∧
        ∀ back front, rest = back ++ .read c e.key :: front → ∀ x,
          ((start p b).run (before ++ .dispatch caches :: (mid ++ .serve a :: back))).tracker.get?
            e.key = some x → Resource.version e.object ≤ Resource.version x := by
  obtain ⟨lawful, allowed, later⟩ := (lawful_append ..).mp hl
  have sound := (sound_start p b).run lawful
  have predicate : ((start p b).run before).predicate = p := predicate_run _ before
  generalize hr : (start p b).run before = r at *
  have sound' : (r.next (.dispatch caches)).Sound := sound.next allowed
  have later : (r.next (.dispatch caches)).Lawful after := later
  have settled := (sound.arrived e arrived).succeeds (sound.succeeds (.dispatch caches))
  have dirty : e.key ∈ (r.next (.dispatch caches)).service.queue.dirty := by
    rw [service_next, deed?, arrived, Option.bind_some, predicate, if_pos keeps]
    exact WorkQueue.mem_dirty_add sound.open_ e.key
  -- From the dispatch on the key is dirty and the event settled. What follows is about the
  -- run from `r'`, the relay right after it.
  generalize hn : r.next (.dispatch caches) = r' at *
  have from_ (l : List (Act K)) :
      (start p b).run (before ++ .dispatch caches :: l) = r'.run l := by
    rw [run_append, hr, ← hn]
    rfl
  simp only [from_]
  refine (sound'.dirty_run later dirty).imp id ?_
  rintro ⟨mid, a, rest, c, rfl, hands⟩
  refine ⟨mid, a, rest, c, rfl, hands, ?_, ?_⟩
  · have unread : (c, e.key) ∈ ((r'.run mid).next (.serve a)).unread := by
      simp only [next, hands]
      exact List.mem_cons_self ..
    rw [run_append]
    exact unread_run _ unread
  · rintro back front rfl x hx
    have earlier : r'.Lawful (mid ++ .serve a :: back) := by
      rw [← List.cons_append, ← List.append_assoc] at later
      exact ((lawful_append ..).mp later).1
    exact (sound'.settled_run earlier settled).stored x hx

/-- A worker is changed while a caller has its key, and changed again before the key is given
back. Another caller gets the key for both changes. -/
theorem nothing_lost_in_hand :
    let k : Key := ⟨"tenant", "pool"⟩
    let before : List (Act Worker) :=
      [.create default (Trial.Fixture.worker "tenant" "pool" default), .watch, .take,
        .dispatch default, .serve (.ask 0), .read 0 k,
        .modify k (Trial.Fixture.requesting "migrate"), .take]
    let after : List (Act Worker) :=
      [.modify k (Trial.Fixture.requesting "restore"), .take, .dispatch default,
        .serve (.done 0 k), .serve (.ask 1), .read 1 k]
    (start .always default).Lawful (before ++ .dispatch default :: after) ∧
      k ∉ ((start .always default).run (before ++ .dispatch default :: after)).service.queue.dirty ∧
      ∃ mid a rest c, after = mid ++ .serve a :: rest ∧
        ((start .always default).run (before ++ .dispatch default :: mid)).service.hands? a =
          some (c, k) ∧ .read c k ∈ rest := by
  intro k before after
  have lawful : (start .always default).Lawful (before ++ .dispatch default :: after) := by decide
  have clean : k ∉ ((start .always default).run
      (before ++ .dispatch default :: after)).service.queue.dirty := by decide
  have none_ :
      ((start .always default).run (before ++ .dispatch default :: after)).unread = [] := by
    decide
  have told : ((start .always default).run before).arrived.map Event.key = some k := by decide
  obtain ⟨e, arrived, he⟩ := Option.map_eq_some_iff.mp told
  have kept := nothing_lost .always default before after default e lawful arrived rfl
  dsimp only at kept
  rw [he, none_] at kept
  obtain ⟨mid, a, rest, c, split, hands, seen, _⟩ := kept.resolve_left clean
  exact ⟨lawful, clean, mid, a, rest, c, split, hands, seen.resolve_left List.not_mem_nil⟩

end Relay

end PoolControl
