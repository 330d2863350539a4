import PoolControl.Proofs.Api.Log
import PoolControl.Proofs.Loop.Exclusive
import PoolControl.Proofs.Queue.Wanted
import PoolControl.Routing.Wiring
import PoolControl.Controller.Runner

/-! The provisioning controller with the API it works on.

A `Deployment` is an API that users write to, the two watches of the provisioning controller, its
queue, and the callers that get keys from the queue and make attempts on them, at most one on
each key. In an act a user writes, a watch takes the next event of its feed or dispatches the
event it took, time passes, a timer goes off or adds its key, a caller asks for a key, an
attempt takes its next step, or a caller tells the queue how an attempt ended. Acts come in any
order, so that anything may happen between the steps of an attempt, and between a write and the
dispatch of the event that tells of it. Any write of an attempt may be lost, and the actuator may
answer anything or panic. A caller dies with its key if the queue panics at what it is told. The
watches, the queue, the steps of attempts and what is told
afterwards are those of the controller that runs. It is not told to stop.

`Sound` is what holds whatever happens. -/
namespace PoolControl

/-! ### Steps of attempts -/

/-- What a caller is about with the key that it has. -/
inductive Duty
  | visiting (stage : AttemptState)
  /-- Through with an attempt, with some of this still to tell the queue. -/
  | closing (todo : List Closing)
  /-- The caller died with the key, because the queue panicked at what it was told. -/
  | crashed

/-- What the next step of an attempt meets: the time, an API that cannot be reached, and the
answer of the actuator, which panics if there is none. -/
structure Cue where
  now : Timestamp
  lost : Option String
  reply : Option Reply

/-- The next step of an attempt, with the API after it. -/
def AttemptState.next (a : Api) (cue : Cue) : AttemptState → Duty × Api
  | .going (.done r) => (.closing (Result.closings r), a)
  | .going (.look next) => (.visiting (.going (next a.caches)), a)
  | .going (.clock next) => (.visiting (.going (next cue.now)), a)
  | .going (.write w next) =>
    match cue.lost with
    | some reason => (.visiting (.going (next (.error (.unavailable reason)))), a)
    | none => (.visiting (.going (next (a.write w).1)), (a.write w).2)
  | .going (.actuate c next) => (.visiting (.calling c next), a)
  | .calling _ next =>
    match cue.reply with
    | some r => (.visiting (.going (next r)), a)
    | none => (.closing (Result.closings Ending.panicked.settled), a)

/-- What a caller does to the queue when it tells it something about a key. -/
def Closing.deed (c : Nat) (k : Key) : Closing → Deed Key
  | .forget => .forget k
  | .addAfter d => .addAfter k d
  | .addRateLimited => .addRateLimited k
  | .done => .done c k

/-- What a caller is about once it told the queue something about a key. -/
def Service.left (s : Service Key) (k : Key) (c : Nat) (told : Closing) (todo : List Closing) :
    Option (Nat × Duty) :=
  if told = .done then none
  else some (c, if (told.apply s.now k s.queue).2 then .closing todo else .crashed)

/-! ### Deployments -/

/-- What a controller is in charge of. -/
structure Charge where
  ignoreRequests : Bool
  backend : String

structure Deployment where
  api : Api
  /-- The event of a worker that was taken and is to be dispatched. -/
  arrived : Option (Event Worker)
  /-- The event of a cluster that was taken and is to be dispatched. -/
  arrivedCluster : Option (Event Cluster)
  service : Service Key
  /-- The keys that callers have, each with the caller and what it is about. -/
  duties : Key → Option (Nat × Duty)

namespace Deployment

/-- A controller that was just started. Clusters are watched only if requests matter. -/
def opened (x : Charge) (p : Backoff.Policy) (a : Api) : Deployment where
  api :=
    { a with
      workers := a.workers.watch 0
      clusters := if x.ignoreRequests then a.clusters else a.clusters.watch 0 }
  arrived := none
  arrivedCluster := none
  service := .opened p
  duties _ := none

/-- What may happen. -/
inductive Act
  | worker (r : Tracker.Request Worker)
  | cluster (r : Tracker.Request Cluster)
  /-- Machine sets and machines change. -/
  | dependents (sets : Tracker MachineSet) (machines : Tracker Machine)
  /-- The other loop reports the state of a worker's machines. -/
  | report (k : Key) (state : WorkerState)
  | take
  | takeCluster
  | dispatch
  | dispatchCluster
  | serve (a : Deed Key)
  /-- The attempt on a key takes its next step. -/
  | move (k : Key) (cue : Cue)
  /-- The caller that has a key tells the queue what comes next. -/
  | tell (k : Key)

/-- The deeds of timers, and of callers that have no key. -/
def Serves (d : Deployment) : Deed Key → Prop
  | .pass _ => True
  | .expire _ _ => True
  | .deliver _ => True
  | .ask c => c ∉ d.service.held.map Prod.fst
  | .askAgain c => c ∉ d.service.held.map Prod.fst
  | _ => False

instance (d : Deployment) : DecidablePred d.Serves
  | .ask c => inferInstanceAs (Decidable (c ∉ d.service.held.map Prod.fst))
  | .askAgain c => inferInstanceAs (Decidable (c ∉ d.service.held.map Prod.fst))
  | .pass _ | .expire .. | .deliver _ => .isTrue trivial
  | .add _ | .addAfter .. | .addRateLimited _ | .forget _ | .giveUp _ | .done .. | .shutDown =>
    .isFalse id

/-- When an act can happen. A watch takes one event at a time. -/
def Allows (d : Deployment) : Act → Prop
  | .take => d.arrived.isNone = true
  | .takeCluster => d.arrivedCluster.isNone = true
  | .serve a => d.Serves a ∧ d.service.Allows a
  | _ => True

instance (d : Deployment) : DecidablePred d.Allows
  | .take => inferInstanceAs (Decidable (d.arrived.isNone = true))
  | .takeCluster => inferInstanceAs (Decidable (d.arrivedCluster.isNone = true))
  | .serve a => inferInstanceAs (Decidable (d.Serves a ∧ d.service.Allows a))
  | .worker _ | .cluster _ | .dependents .. | .report .. | .dispatch | .dispatchCluster | .move ..
  | .tell _ => .isTrue trivial

/-- A caller that is handed a key begins an attempt on it. -/
def begun (duties : Key → Option (Nat × Duty)) : Option (Nat × Key) → Key → Option (Nat × Duty)
  | some (c, k) => Function.update duties k (some (c, .visiting (.going (Provision.plan k))))
  | none => duties

/-- What an act makes of a deployment. -/
def next (x : Charge) (d : Deployment) : Act → Deployment
  | .worker r => { d with api := { d.api with workers := d.api.workers.answer r } }
  | .cluster r => { d with api := { d.api with clusters := d.api.clusters.answer r } }
  | .dependents sets machines => { d with api := { d.api with machineSets := sets, machines } }
  | .report k s => { d with api := (d.api.write (.state k s)).2 }
  | .take =>
    { d with
      api := { d.api with workers := d.api.workers.advance 0 1 }
      arrived := (d.api.workers.pending 0).head? }
  | .takeCluster =>
    { d with
      api := { d.api with clusters := d.api.clusters.advance 0 1 }
      arrivedCluster := (d.api.clusters.pending 0).head? }
  | .dispatch =>
    match d.arrived with
    | none => d
    | some e =>
      { d with
        arrived := none
        service := { d.service with
          queue := (Wiring.workers x.ignoreRequests x.backend).dispatch d.api.caches e
            d.service.queue } }
  | .dispatchCluster =>
    match d.arrivedCluster with
    | none => d
    | some e =>
      { d with
        arrivedCluster := none
        service := { d.service with
          queue := (Wiring.clusters x.ignoreRequests x.backend).dispatch d.api.caches e
            d.service.queue } }
  | .serve a =>
    { d with
      service := d.service.next a
      duties := begun d.duties (d.service.hands? a) }
  | .move k cue =>
    match d.duties k with
    | some (c, .visiting stage) =>
      { d with
        api := (stage.next d.api cue).2
        duties := Function.update d.duties k (some (c, (stage.next d.api cue).1)) }
    | _ => d
  | .tell k =>
    match d.duties k with
    | some (c, .closing (told :: todo)) =>
      { d with
        service := d.service.next (told.deed c k)
        duties := Function.update d.duties k (d.service.left k c told todo) }
    | _ => d

abbrev system (x : Charge) : System Deployment Act := ⟨next x, Allows⟩

def run (x : Charge) (d : Deployment) (l : List Act) : Deployment := (system x).run d l

theorem run_cons (x : Charge) (d : Deployment) (a : Act) (l : List Act) :
    d.run x (a :: l) = (d.next x a).run x l := rfl

/-- Every act of a run is as `P` has it where it happens. -/
abbrev Throughout (x : Charge) (P : Deployment → Act → Prop) (d : Deployment) (l : List Act) :
    Prop :=
  (system x).Throughout P d l

/-- Every act of a run can happen when its turn comes. -/
abbrev Lawful (x : Charge) (d : Deployment) (l : List Act) : Prop := (system x).Lawful d l

instance (x : Charge) (d : Deployment) : DecidablePred ((system x).Allows d) :=
  inferInstanceAs (DecidablePred d.Allows)

theorem run_append (x : Charge) (d : Deployment) (l l' : List Act) :
    d.run x (l ++ l') = (d.run x l).run x l' :=
  (system x).run_append d l l'

theorem throughout_append (x : Charge) (P : Deployment → Act → Prop) (d : Deployment)
    (l l' : List Act) :
    d.Throughout x P (l ++ l') ↔ d.Throughout x P l ∧ (d.run x l).Throughout x P l' :=
  (system x).throughout_append P d l l'

end Deployment

/-! ### Trackers with a feed -/

namespace Tracker

variable {K : Type} [Resource K] {t : Tracker K}

/-- A tracker in order, with one feed of a name. -/
structure Fed (t : Tracker K) (id : Nat) : Prop where
  sound : t.Sound
  feeds : t.Feeds id (t.pending id)

variable {id : Nat}

theorem fed_watch (h : t.Sound) (fresh : t.feeds = []) : (t.watch id).Fed id := by
  have logs : (t.watch id).Logs id [] := logs_watch h fun f hf => by
    rw [fresh] at hf
    cases hf
  exact ⟨logs.sound, logs.feeds⟩

theorem Fed.advance (h : t.Fed id) (n : Nat) : (t.advance id n).Fed id := by
  have feeds := h.feeds.advance id n
  exact ⟨h.sound.next (.take id n), feeds.pending.symm ▸ feeds⟩

theorem Fed.pending_advance (h : t.Fed id) (n : Nat) :
    (t.advance id n).pending id = (t.pending id).drop n := by
  rw [(h.feeds.advance id n).pending, if_pos rfl]

/-- What a watch takes is under way as before. -/
theorem Fed.taken (h : t.Fed id) :
    (t.pending id).head?.toList ++ (t.advance id 1).pending id = t.pending id := by
  rw [h.pending_advance]
  cases t.pending id <;> rfl

/-- An answer tells nothing, or it tells one event, to the store and to the feed. -/
theorem Fed.answer_cases (h : t.Fed id) (r : Request K) :
    t.answer r = t ∨ ∃ e, t.store.Admits e ∧ (t.answer r).pending id = t.pending id ++ [e] ∧
      ∀ k, (t.answer r).get? k = if k = e.key then e.left? else t.get? k := by
  generalize ht : t.answer r = t'
  cases ht ▸ answers h.sound.dated r with
  | silent => exact .inl rfl
  | @told e v admitted =>
    exact .inr ⟨e, admitted, (h.feeds.tells (tells_publish t v e)).pending, fun k =>
      get?_publish { t with version := v } e k⟩

/-- What waits for a feed still does after an answer. -/
theorem Fed.mem_pending_answer (h : t.Fed id) (r : Request K) {e : Event K}
    (waits : e ∈ t.pending id) : e ∈ (t.answer r).pending id := by
  rcases h.answer_cases r with same | ⟨e', -, pending, -⟩
  · rwa [same]
  · rw [pending]
    exact List.mem_append_left _ waits

theorem Fed.answer (h : t.Fed id) (r : Request K) : (t.answer r).Fed id := by
  refine ⟨h.sound.next (.request r), ?_⟩
  generalize ht : t.answer r = t'
  cases ht ▸ answers h.sound.dated r with
  | silent => exact h.feeds
  | @told e v admitted =>
    have told := h.feeds.tells (tells_publish t v e)
    exact told.pending.symm ▸ told

end Tracker

/-- A write of a loop is a request. -/
theorem Api.workers_write_answer (a : Api) (w : Write) :
    (a.write w).2.workers = a.workers.answer (.modify w.key w.change) :=
  Api.workers_write a w

/-! ### Queues under deeds -/

namespace Service

variable {s : Service Key}

/-- Keys are added one after the other. -/
theorem addAll_eq_run (s : Service Key) (ks : List Key) :
    { s with queue := s.queue.addAll ks } = s.run (ks.map .add) := by
  induction ks generalizing s with
  | nil => rfl
  | cons k ks ih => exact ih (s.next (.add k))

theorem lawful_adds (s : Service Key) (ks : List Key) : s.Lawful (ks.map .add) := by
  induction ks generalizing s with
  | nil => trivial
  | cons k ks ih => exact ⟨trivial, ih _⟩

/-- What is wanted after keys were added. -/
theorem wants_addAll (open_ : s.queue.isShutDown = false) (ks : List Key) (k : Key) :
    ({ s with queue := s.queue.addAll ks } : Service Key).Wants k ↔ s.Wants k ∨ k ∈ ks := by
  show ((ks.foldl WorkQueue.add s.queue).slot k).IsWanted ↔ _
  rw [WorkQueue.slot_addAll open_]
  split
  · rename_i mem
    exact iff_of_true (.inl rfl) (.inr mem)
  · rename_i other
    exact (or_iff_left other).symm

/-- Who has what after a deed that gives nothing back. -/
theorem held_next_eq (s : Service Key) {a : Deed Key} (ha : ∀ c k, a ≠ .done c k) :
    (s.next a).held = (s.hands? a).toList ++ s.held := by
  cases a with
  | ask c =>
    rcases h : s.queue.ask c with ⟨_ | _ | _, q⟩ <;> simp only [next, hands?, h] <;> rfl
  | askAgain c =>
    rcases h : s.queue.askAgain c with ⟨_ | _ | _, q⟩ <;> simp only [next, hands?, h] <;> rfl
  | done c k => exact absurd rfl (ha c k)
  | _ => rfl

/-- Who has what after a key was given back. -/
theorem mem_held_done (h : s.Orderly) {c c' : Nat} {k k' : Key} (had : (c, k) ∈ s.held) :
    (c', k') ∈ (s.next (.done c k)).held ↔ (c', k') ∈ s.held ∧ k' ≠ k := by
  have nodup : s.held.Nodup := .of_map _ h.single
  refine nodup.mem_erase_iff.trans ⟨fun ⟨other, mem⟩ => ⟨mem, ?_⟩, fun ⟨mem, other⟩ => ⟨?_, mem⟩⟩
  · rintro rfl
    exact other (by rw [h.holder_unique mem had])
  · exact fun same => other (congrArg Prod.snd same)

/-! ### What is told -/

theorem left_of_done (s : Service Key) (k : Key) (c : Nat) (todo : List Closing) :
    s.left k c .done todo = none := rfl

/-- A caller that does not give its key back goes on with it, or dies with it. -/
theorem left_cases (s : Service Key) (k : Key) (c : Nat) {what : Closing}
    (more : what ≠ .done) (todo : List Closing) :
    s.left k c what todo = some (c, .closing todo) ∧ (what.apply s.now k s.queue).2 = true ∨
      s.left k c what todo = some (c, .crashed) ∧ (what.apply s.now k s.queue).2 = false := by
  unfold left
  rw [if_neg more]
  cases (what.apply s.now k s.queue).2
  · exact .inr ⟨rfl, rfl⟩
  · exact .inl ⟨rfl, rfl⟩

theorem left_ne_visiting (s : Service Key) (k : Key) (c c' : Nat) (what : Closing)
    (todo : List Closing) (stage : AttemptState) :
    s.left k c what todo ≠ some (c', .visiting stage) := by
  by_cases last : what = .done
  · subst last
    exact nofun
  · rcases s.left_cases k c last todo with ⟨he, -⟩ | ⟨he, -⟩ <;> rw [he] <;> exact nofun

end Service

/-! ### Soundness -/

/-- Where an attempt stands that goes on. -/
def Duty.stage? : Duty → Option AttemptState
  | .visiting stage => some stage
  | .closing _ => none
  | .crashed => none

/-- The next step of an attempt is a move of it. -/
theorem AttemptState.moves_next (k : Key) (a : Api) (cue : Cue) (stage : AttemptState) :
    ∃ notes, stage.Moves k a (stage.next a cue).1.stage? (stage.next a cue).2 notes := by
  cases stage with
  | going p =>
    cases p with
    | done r => exact ⟨_, .finish⟩
    | look next => exact ⟨_, .look⟩
    | clock next => exact ⟨_, .clock _⟩
    | write w next =>
      unfold AttemptState.next
      cases cue.lost with
      | none => exact ⟨_, .write⟩
      | some reason => exact ⟨_, .lose reason⟩
    | actuate c next => exact ⟨_, .call⟩
  | calling c next =>
    unfold AttemptState.next
    cases cue.reply with
    | none => exact ⟨_, .cut⟩
    | some r => exact ⟨_, .reply r⟩

/-- A step of an attempt is answered by the API as a write of it, or leaves the API alone. -/
theorem AttemptState.next_api (a : Api) (cue : Cue) (stage : AttemptState) :
    (stage.next a cue).2 = a ∨
      ∃ w next, stage = .going (.write w next) ∧ (stage.next a cue).2 = (a.write w).2 := by
  cases stage with
  | going p =>
    cases p with
    | write w next =>
      unfold AttemptState.next
      cases cue.lost with
      | none => exact .inr ⟨w, next, rfl, rfl⟩
      | some reason => exact .inl rfl
    | _ => exact .inl rfl
  | calling c next =>
    unfold AttemptState.next
    cases cue.reply with
    | none => exact .inl rfl
    | some r => exact .inl rfl

/-- An API to start a controller on, with trackers in order that nobody watches yet. -/
structure Api.Unwatched (a : Api) : Prop where
  workers : a.workers.Sound
  clusters : a.clusters.Sound
  unwatched : a.workers.feeds = [] ∧ a.clusters.feeds = []

theorem Site.unwatched_founded (w : Worker) : (Site.founded w).api.Unwatched where
  workers := Tracker.sound_empty.next (.request (.create default w))
  clusters := Tracker.sound_empty.next
    (.request (.create default (Trial.Fixture.cluster w.metadata.ns default .healthy)))
  unwatched := ⟨rfl, rfl⟩

namespace Deployment

/-- A deployment in order. -/
structure Sound (x : Charge) (d : Deployment) : Prop where
  workers : d.api.workers.Fed 0
  clusters : d.api.clusters.Sound
  /-- Clusters are watched unless requests are ignored. -/
  watched : x.ignoreRequests = false → d.api.clusters.Fed 0
  orderly : d.service.Orderly
  open_ : d.service.queue.isShutDown = false
  /-- Whoever has a key is about something with it. -/
  holds : ∀ c k, (c, k) ∈ d.service.held ↔ ∃ b, d.duties k = some (c, b)
  /-- Attempts keep to the protocol. -/
  obeys : ∀ k c stage, d.duties k = some (c, .visiting stage) → ∃ st, stage.Obeys k st

variable {x : Charge} {d : Deployment}

theorem sound_opened (x : Charge) (p : Backoff.Policy) {a : Api} (h : a.Unwatched) :
    (opened x p a).Sound x where
  workers := Tracker.fed_watch h.workers h.unwatched.1
  clusters := by
    unfold opened
    cases x.ignoreRequests with
    | true => exact h.clusters
    | false => exact h.clusters.next (.watch 0)
  watched heeds := by
    unfold opened
    rw [heeds]
    exact Tracker.fed_watch h.clusters h.unwatched.2
  orderly := Service.orderly_opened p
  open_ := rfl
  holds c k := by
    refine iff_of_false ?_ ?_
    · exact List.not_mem_nil
    · rintro ⟨b, hb⟩
      cases hb
  obeys k c stage under := by cases under

/-- Keys that a watch adds. -/
theorem Sound.addAll (h : d.Sound x) {d' : Deployment} {ks : List Key} (api : d'.api = d.api)
    (duties : d'.duties = d.duties)
    (service : d'.service = { d.service with queue := d.service.queue.addAll ks }) :
    d'.Sound x := by
  obtain ⟨workers, clusters, watched, orderly, open_, holds, obeys⟩ := h
  have run := service.trans (Service.addAll_eq_run d.service ks)
  refine ⟨?_, ?_, ?_, ?_, ?_, ?_, ?_⟩
  · rwa [api]
  · rwa [api]
  · rwa [api]
  · rw [run]
    exact orderly.run (Service.lawful_adds d.service ks)
  · rw [run]
    exact (Service.isShutDown_run _ (by simp)).trans open_
  · rw [service, duties]
    exact holds
  · rwa [duties]

/-- A key that somebody begins an attempt on was handed out. -/
theorem begun_cases (duties : Key → Option (Nat × Duty)) (hands : Option (Nat × Key)) (k : Key) :
    begun duties hands k = duties k ∨
      ∃ c, hands = some (c, k) ∧
        begun duties hands k = some (c, .visiting (.going (Provision.plan k))) := by
  rcases hands with _ | ⟨c, k'⟩
  · exact .inl rfl
  · by_cases hk : k = k'
    · subst hk
      exact .inr ⟨c, rfl, Function.update_self ..⟩
    · exact .inl (Function.update_of_ne hk ..)

/-- Who has what after a key was handed out. -/
theorem Sound.holds_begun (h : d.Sound x) {a : Deed Key} (c : Nat) (k : Key) :
    (c, k) ∈ (d.service.hands? a).toList ++ d.service.held ↔
      ∃ b, begun d.duties (d.service.hands? a) k = some (c, b) := by
  rcases hands : d.service.hands? a with _ | ⟨c', k'⟩
  · exact h.holds c k
  · rw [Option.toList_some, List.singleton_append, List.mem_cons]
    by_cases hk : k = k'
    · subst hk
      have free : (c, k) ∉ d.service.held := h.orderly.hands_free hands
      rw [or_iff_left free, begun, Function.update_self]
      simp only [Option.some.injEq, Prod.mk.injEq, and_true, exists_eq_right']
      exact eq_comm
    · rw [begun, Function.update_of_ne hk, ← h.holds c k]
      exact or_iff_right fun same => hk (Prod.mk.inj same).2

theorem Sound.serve (h : d.Sound x) {a : Deed Key} (ha : d.Serves a)
    (allowed : d.service.Allows a) : (d.next x (.serve a)).Sound x where
  workers := h.workers
  clusters := h.clusters
  watched := h.watched
  orderly := h.orderly.next allowed
  open_ := (Service.isShutDown_next d.service (by rintro rfl; exact ha)).trans h.open_
  holds c k := by
    show (c, k) ∈ (d.service.next a).held ↔ _
    rw [Service.held_next_eq d.service (by rintro c k rfl; exact ha)]
    exact h.holds_begun c k
  obeys k c stage under := by
    rcases begun_cases d.duties (d.service.hands? a) k with same | ⟨c', -, began⟩
    · exact h.obeys k c stage (same.symm.trans under)
    · cases began.symm.trans under
      exact ⟨.outset, .going (Provision.obeys_plan k)⟩

/-- The deployment after the next step of the attempt on a key. -/
def moved (d : Deployment) (k : Key) (c : Nat) (stage : AttemptState) (cue : Cue) : Deployment :=
  { d with
    api := (stage.next d.api cue).2
    duties := Function.update d.duties k (some (c, (stage.next d.api cue).1)) }

theorem duties_moved (d : Deployment) (k : Key) (c : Nat) (stage : AttemptState) (cue : Cue)
    (k' : Key) :
    (d.moved k c stage cue).duties k' =
      if k' = k then some (c, (stage.next d.api cue).1) else d.duties k' :=
  Function.update_apply ..

/-- An attempt takes its next step, if there is one. -/
theorem move_cases (x : Charge) (d : Deployment) (k : Key) (cue : Cue) :
    (∀ c stage, d.duties k ≠ some (c, .visiting stage)) ∧ d.next x (.move k cue) = d ∨
      ∃ c stage, d.duties k = some (c, .visiting stage) ∧
        d.next x (.move k cue) = d.moved k c stage cue := by
  simp only [next]
  split
  · rename_i c stage under
    exact .inr ⟨c, stage, under, rfl⟩
  · rename_i none_
    exact .inl ⟨none_, rfl⟩

/-- The deployment after a caller told the queue something about a key. -/
def told (d : Deployment) (k : Key) (c : Nat) (what : Closing) (todo : List Closing) : Deployment :=
  { d with
    service := d.service.next (what.deed c k)
    duties := Function.update d.duties k (d.service.left k c what todo) }

theorem duties_told (d : Deployment) (k : Key) (c : Nat) (what : Closing) (todo : List Closing)
    (k' : Key) :
    (d.told k c what todo).duties k' =
      if k' = k then d.service.left k c what todo else d.duties k' :=
  Function.update_apply ..

/-- A caller tells the queue what comes next, if there is anything. -/
theorem tell_cases (x : Charge) (d : Deployment) (k : Key) :
    d.next x (.tell k) = d ∨
      ∃ c what todo, d.duties k = some (c, .closing (what :: todo)) ∧
        d.next x (.tell k) = d.told k c what todo := by
  simp only [next]
  split
  · rename_i c what todo about
    exact .inr ⟨c, what, todo, about, rfl⟩
  · exact .inl rfl

/-- What an attempt leaves of itself keeps to the protocol, too. -/
theorem Sound.obeys_move (h : d.Sound x) {k : Key} {c : Nat} {stage stage' : AttemptState}
    (under : d.duties k = some (c, .visiting stage)) {cue : Cue}
    (goes : (stage.next d.api cue).1 = .visiting stage') : ∃ st, stage'.Obeys k st := by
  obtain ⟨st, obeys⟩ := h.obeys k c stage under
  obtain ⟨notes, moves⟩ := stage.moves_next k d.api cue
  obtain ⟨st', rel, -⟩ := moves.view (fun _ _ => True) obeys h.workers.sound.dated.keyed []
  rw [goes] at rel
  cases rel with | some rel
  exact ⟨_, rel⟩

/-- A caller that goes on with a key it has. -/
theorem goes_on {k : Key} {c : Nat} {b b' : Duty}
    (had : d.duties k = some (c, b)) (c' : Nat) (k' : Key) :
    (∃ b, d.duties k' = some (c', b)) ↔
      ∃ b, (if k' = k then some (c, b') else d.duties k') = some (c', b) := by
  by_cases hk : k' = k
  · subst hk
    rw [if_pos rfl, had]
    constructor
    · rintro ⟨_, same⟩
      exact ⟨b', by rw [(Prod.mk.inj (Option.some.inj same)).1]⟩
    · rintro ⟨_, same⟩
      exact ⟨b, by rw [(Prod.mk.inj (Option.some.inj same)).1]⟩
  · rw [if_neg hk]

/-- An attempt takes its next step. -/
theorem Sound.move (h : d.Sound x) {k : Key} {c : Nat} {stage : AttemptState}
    (under : d.duties k = some (c, .visiting stage)) (cue : Cue) :
    (d.moved k c stage cue).Sound x := by
  have answered : (stage.next d.api cue).2.workers.Fed 0 ∧
      (stage.next d.api cue).2.clusters = d.api.clusters := by
    rcases stage.next_api d.api cue with he | ⟨w, next, -, he⟩
    · rw [he]
      exact ⟨h.workers, rfl⟩
    · rw [he, Api.workers_write_answer, Api.clusters_write]
      exact ⟨h.workers.answer _, rfl⟩
  refine ⟨answered.1, ?_, ?_, h.orderly, h.open_, fun c' k' => ?_, fun k' c' stage' under' => ?_⟩
  · exact answered.2 ▸ h.clusters
  · exact answered.2 ▸ h.watched
  · rw [duties_moved]
    exact (h.holds c' k').trans (goes_on under c' k')
  · rw [duties_moved] at under'
    split at under'
    · rename_i hk
      subst hk
      exact h.obeys_move under (Prod.mk.inj (Option.some.inj under')).2
    · exact h.obeys k' c' stage' under'

theorem Closing.allows_deed {told : Closing} {s : Service Key} {c : Nat} {k : Key}
    (had : (c, k) ∈ s.held) : s.Allows (told.deed c k) := by
  cases told with
  | done => exact had
  | _ => trivial

/-- A caller tells the queue how its attempt ended. -/
theorem Sound.tell (h : d.Sound x) {k : Key} {c : Nat} {what : Closing} {todo : List Closing}
    (about : d.duties k = some (c, .closing (what :: todo))) :
    (d.told k c what todo).Sound x := by
  have had : (c, k) ∈ d.service.held := (h.holds c k).mpr ⟨_, about⟩
  have open_ : what.deed c k ≠ .shutDown := by cases what <;> exact (nomatch ·)
  refine ⟨h.workers, h.clusters, h.watched, h.orderly.next (Closing.allows_deed had),
    (Service.isShutDown_next d.service open_).trans h.open_, fun c' k' => ?_,
    fun k' c' stage under => ?_⟩
  · by_cases last : what = .done
    · subst last
      refine (Service.mem_held_done h.orderly had).trans ?_
      rw [h.holds c' k', duties_told, Service.left_of_done]
      by_cases hk : k' = k
      · rw [if_pos hk]
        refine iff_of_false (fun e => e.2 hk) ?_
        rintro ⟨_, nobody⟩
        cases nobody
      · rw [if_neg hk]
        exact and_iff_left hk
    · have held : (d.service.next (what.deed c k)).held = d.service.held := by
        cases what with
        | done => exact absurd rfl last
        | _ => rfl
      show (c', k') ∈ (d.service.next (what.deed c k)).held ↔ _
      rw [duties_told, held]
      rcases d.service.left_cases k c last todo with ⟨he, -⟩ | ⟨he, -⟩ <;> rw [he] <;>
        exact (h.holds c' k').trans (goes_on about c' k')
  · rw [duties_told] at under
    split at under
    · exact absurd under (d.service.left_ne_visiting k c c' what todo stage)
    · exact h.obeys k' c' stage under

/-- **A deployment stays in order.** -/
theorem Sound.next (h : d.Sound x) {a : Act} (ha : d.Allows a) : (d.next x a).Sound x := by
  cases a with
  | worker r =>
    exact ⟨h.workers.answer r, h.clusters, h.watched, h.orderly, h.open_, h.holds, h.obeys⟩
  | cluster r =>
    exact ⟨h.workers, h.clusters.next (.request r), fun heeds => (h.watched heeds).answer r,
      h.orderly, h.open_, h.holds, h.obeys⟩
  | dependents => exact ⟨h.workers, h.clusters, h.watched, h.orderly, h.open_, h.holds, h.obeys⟩
  | report k s =>
    have workers : (d.api.write (.state k s)).2.workers.Fed 0 := by
      rw [Api.workers_write_answer]
      exact h.workers.answer _
    have clusters := Api.clusters_write d.api (.state k s)
    exact ⟨workers, clusters ▸ h.clusters, clusters ▸ h.watched, h.orderly, h.open_, h.holds,
      h.obeys⟩
  | take =>
    exact ⟨h.workers.advance 1, h.clusters, h.watched, h.orderly, h.open_, h.holds, h.obeys⟩
  | takeCluster =>
    exact ⟨h.workers, h.clusters.next (.take 0 1), fun heeds => (h.watched heeds).advance 1,
      h.orderly, h.open_, h.holds, h.obeys⟩
  | dispatch =>
    unfold Deployment.next
    cases d.arrived with
    | none => exact h
    | some e => exact h.addAll rfl rfl rfl
  | dispatchCluster =>
    unfold Deployment.next
    cases d.arrivedCluster with
    | none => exact h
    | some e => exact h.addAll rfl rfl rfl
  | serve a => exact h.serve ha.1 ha.2
  | move k cue =>
    rcases move_cases x d k cue with ⟨-, he⟩ | ⟨c, stage, under, he⟩
    · rwa [he]
    · rw [he]
      exact h.move under cue
  | tell k =>
    rcases tell_cases x d k with he | ⟨c, what, todo, about, he⟩
    · rwa [he]
    · rw [he]
      exact h.tell about

theorem Sound.run (h : d.Sound x) {l : List Act} (hl : d.Lawful x l) : (d.run x l).Sound x :=
  hl.keeps (fun h ha => h.next ha) h

/-! ### What is under way -/

/-- The events of workers that were told and not dispatched yet. -/
def underway (d : Deployment) : List (Event Worker) := d.arrived.toList ++ d.api.workers.pending 0

/-- The events of clusters that were told and not dispatched yet. -/
def underwayClusters (d : Deployment) : List (Event Cluster) :=
  d.arrivedCluster.toList ++ d.api.clusters.pending 0

theorem Sound.underway_take (h : d.Sound x) (free : d.arrived = none) :
    (d.next x .take).underway = d.underway := by
  rw [underway, underway, free]
  exact h.workers.taken

theorem Sound.underway_takeCluster (h : d.Sound x) (heeds : x.ignoreRequests = false)
    (free : d.arrivedCluster = none) :
    (d.next x .takeCluster).underwayClusters = d.underwayClusters := by
  rw [underwayClusters, underwayClusters, free]
  exact (h.watched heeds).taken

/-! ### What is wanted -/

/-- What a watch dispatches is wanted. -/
theorem Sound.wants_dispatch (h : d.Sound x) {S : Type} [Resource S] (w : Dispatcher S)
    (e : Event S) (k : Key) :
    ({ d.service with queue := w.dispatch d.api.caches e d.service.queue } : Service Key).Wants k ↔
      d.service.Wants k ∨ k ∈ w.keys d.api.caches e :=
  (Service.wants_addAll h.open_ _ k).trans (or_congr_right OrderedSet.mem_elements)

/-- Timers and callers make nothing wanted. -/
theorem Sound.wants_of_serve (h : d.Sound x) {a : Deed Key} (ha : d.Allows (.serve a)) {k : Key}
    (wants : (d.service.next a).Wants k) : d.service.Wants k := by
  obtain ⟨serves, allowed⟩ := ha
  by_cases hands : ∃ c, d.service.hands? a = some (c, k)
  · obtain ⟨c, hands⟩ := hands
    exact Service.wants_of_hands hands h.orderly.tidy
  · have only := Service.wants_next_iff h.open_ allowed (by rintro rfl; exact serves)
      fun c hc => hands ⟨c, hc⟩
    have unasked : d.service.wants? a = none := by
      cases a with
      | add | addAfter | addRateLimited => exact serves.elim
      | _ => rfl
    rw [unasked] at only
    exact (only.mp wants).resolve_right nofun

/-- A key that is wanted stays so until a caller begins an attempt on it. -/
theorem Sound.wants_serve (h : d.Sound x) {a : Deed Key} (ha : d.Allows (.serve a)) {k : Key}
    (wants : d.service.Wants k) :
    (d.service.next a).Wants k ∨ ∃ c, d.service.hands? a = some (c, k) := by
  obtain ⟨serves, allowed⟩ := ha
  by_cases hands : ∃ c, d.service.hands? a = some (c, k)
  · exact .inr hands
  · exact .inl ((Service.wants_next_iff h.open_ allowed (by rintro rfl; exact serves)
      fun c hc => hands ⟨c, hc⟩).mpr (.inl wants))

/-- What a caller that is through with an attempt wants. -/
theorem Sound.wants_told (h : d.Sound x) {k : Key} {c : Nat} {what : Closing}
    {todo : List Closing} (about : d.duties k = some (c, .closing (what :: todo))) (k' : Key) :
    (d.told k c what todo).service.Wants k' ↔
      d.service.Wants k' ∨ d.service.wants? (what.deed c k) = some k' := by
  have had : (c, k) ∈ d.service.held := (h.holds c k).mpr ⟨_, about⟩
  refine Service.wants_next_iff h.open_ (Closing.allows_deed had) ?_ fun c' => ?_
  · cases what <;> exact (nomatch ·)
  · cases what <;> exact (nomatch ·)

end Deployment

end PoolControl
