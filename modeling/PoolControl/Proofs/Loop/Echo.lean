import PoolControl.Proofs.Api.Log
import PoolControl.Proofs.Loop.Exclusive
import PoolControl.Routing.Wiring

/-! What an attempt hears of its own writes.

A write of the provisioning loop comes back to its controller as an event. If such an event
passed the predicate that workers are watched through, every failure would bring the next
attempt at once and no backoff would hold. `unheard_of_kept` says which updates do not pass,
whichever way the predicate is set up: those that leave the generation and the mark of a
deletion as they are and show no request. The loop never touches a spec or the mark, so all
depends on the request: the write that consumes it must come before any other (`Opens`).

`echoes` follows one attempt on an API that nobody else uses. Writes may be lost, the actuator
may answer anything, and the attempt may be cut off anywhere. -/
namespace PoolControl

open Provision (finalizer)

/-! ### Updates that nobody hears -/

/-- An update that no setting of the predicate keeps. -/
def Event.Unheard (e : Event Worker) : Prop :=
  (∃ old new, e = .updated old new) ∧
    ∀ (clusters : Store Cluster) (ignoreRequests : Bool) (backend : String),
      (Wiring.workerPredicate ignoreRequests backend).keeps clusters e = false

theorem Event.unheard_of_kept {old new : Worker}
    (generation : new.metadata.generation = old.metadata.generation)
    (deleted : new.metadata.deleted = old.metadata.deleted)
    (request : new.metadata.request? = none) : (updated old new).Unheard := by
  refine ⟨⟨old, new, rfl⟩, fun clusters ignoreRequests backend => ?_⟩
  have same : (Predicate.trigger ignoreRequests).keeps clusters (updated old new) = false := by
    cases ignoreRequests with
    | true =>
      show (old.metadata.generation != new.metadata.generation) = false
      rw [generation]
      exact bne_self_eq_false _
    | false =>
      show (new.metadata.request?.isSome ||
        (false || (!old.metadata.deleted.isSome && new.metadata.deleted.isSome || false))) = false
      rw [request, deleted]
      cases old.metadata.deleted <;> rfl
  show (_ && ((Predicate.trigger ignoreRequests).keeps clusters (updated old new) && _)) = false
  rw [same, Bool.false_and, Bool.and_false]

/-- **A write that leaves no request is not heard**, unless the worker goes with it. -/
theorem Write.unheard (x : Write) {w : Worker} (request : (x.change w).metadata.request? = none)
    (v : Nat) : (Event.updated w (Tracker.numbered v w (Tracker.proposed w x.change))).Unheard := by
  have same : Resource.sameSpec w (Tracker.proposed w x.change) = true := by
    refine decide_eq_true ?_
    show w.unsigned.spec = (Tracker.proposed w x.change).unsigned.spec
    simp only [Worker.unsigned]
    rw [show (Tracker.proposed w x.change).spec = w.spec from x.spec_change w]
  have follows : Tracker.Follows w (x.change w)
      (Tracker.numbered v w (Tracker.proposed w x.change)) := Tracker.follows_numbered v _
  refine Event.unheard_of_kept ?_ follows.deleted (follows.request.trans request)
  show (if Resource.sameSpec w (Tracker.proposed w x.change) then w.metadata.generation else _) = _
  rw [if_pos same]

/-! ### The request goes first -/

/-- Whether the first write a plan comes to consumes the request of `k`, if it looks at these
caches. -/
def Plan.Opens (k : Key) (caches : Caches) : Plan → Prop
  | .done _ => True
  | .look next => Opens k caches (next caches)
  | .clock next => ∀ now, Opens k caches (next now)
  | .write x next => x = .clearRequest k ∧ ∀ e, Opens k caches (next (.error e))
  | .actuate _ _ => False

theorem Provision.opens_plan {k : Key} {caches : Caches}
    (h : ∀ w, caches.workers.get? k = some w → w.metadata.request?.isSome = true) :
    (plan k).Opens k caches := by
  simp only [plan, Plan.Opens]
  split
  · trivial
  · rename_i w found
    simp only [Plan.Opens]
    split
    · trivial
    · split
      · trivial
      · rw [consumeRequest, if_pos (h w found)]
        exact ⟨rfl, fun _ => trivial⟩

/-- The same of an attempt under way. -/
def AttemptState.Opens (k : Key) (caches : Caches) : AttemptState → Prop
  | .going p => p.Opens k caches
  | .calling _ _ => False

/-! ### An attempt by itself -/

/-- The loop takes no finalizer off but its own. -/
theorem Standing.Writes.of_removal {a : Standing} {k k' : Key} {f : String}
    (h : a.Writes k (.removeFinalizer k' f)) : f = Provision.finalizer := by
  cases a with
  | answered => exact h.2.1
  | _ => exact h.elim

/-- Whether `x` is what a worker in deletion became when its last finalizers, which are the
loop's, were taken off. -/
structure Worker.LetGo (old x : Worker) : Prop where
  deleting : old.metadata.isDeleting = true
  held : old.metadata.finalizers ≠ []
  last : ∀ f ∈ old.metadata.finalizers, f = finalizer
  bare : x.metadata.finalizers = []

namespace AttemptState

/-- The steps of an attempt on `k` by itself. -/
def Alone (k : Key) (x y : Option AttemptState × Api) : Prop :=
  ∃ stage notes, x.1 = some stage ∧ stage.Moves k x.2 y.1 y.2 notes

/-- An attempt that will not hear of its writes: no request is left, or it is to consume it
first. -/
structure Hushed (k : Key) (stage : Option AttemptState) (a : Api) : Prop where
  keyed : a.workers.Keyed
  stays : ∀ w, a.workers.get? k = some w → w.metadata.isDeleting = true →
    w.metadata.finalizers ≠ []
  obeys : ∃ st, Option.Rel (Obeys k) st stage
  request : (∀ w, a.workers.get? k = some w → w.metadata.request? = none) ∨
    ∀ st, stage = some st → st.Opens k a.caches

variable {k : Key} {a a' : Api} {stage : AttemptState} {stage' : Option AttemptState}
  {notes : List Note}

theorem hushed_plan (keyed : a.workers.Keyed)
    (stays : ∀ w, a.workers.get? k = some w → w.metadata.isDeleting = true →
      w.metadata.finalizers ≠ []) :
    Hushed k (some (.going (Provision.plan k))) a := by
  refine ⟨keyed, stays, ⟨some .outset, .some (.going (Provision.obeys_plan k))⟩, ?_⟩
  by_cases h : ∃ w, a.workers.get? k = some w ∧ w.metadata.request?.isSome = true
  · obtain ⟨w, found, request⟩ := h
    refine .inr fun st e => ?_
    rw [← Option.some.inj e]
    refine Provision.opens_plan fun w' found' => ?_
    rw [Option.some.inj (found'.symm.trans found)]
    exact request
  · refine .inl fun w found => Option.not_isSome_iff_eq_none.mp fun request => ?_
    exact h ⟨w, found, request⟩

/-- What one step of an attempt tells: nothing, an update that is not heard, or that its worker
is gone. -/
inductive Echo (k : Key) (a : Api) : List (Event Worker) → Prop
  | silent : Echo k a []
  | unheard {e : Event Worker} (h : e.Unheard) (found : a.workers.get? k ≠ none) : Echo k a [e]
  | gone {old x : Worker} (key : x.key = k) (found : a.workers.get? k = some old)
      (letGo : old.LetGo x) : Echo k a [.deleted x]

/-- What a write tells, which leaves no request. -/
theorem Hushed.write (h : Hushed k (some stage) a) {x : Write} {old : Worker}
    (key : x.key = k) (found : a.workers.get? k = some old)
    (only : ∀ k' f, x = .removeFinalizer k' f → f = finalizer)
    (request : (x.change old).metadata.request? = none) :
    ∃ es, a.workers.Tells (a.write x).2.workers es ∧ Echo k a es ∧
      (∀ w, (a.write x).2.workers.get? k = some w → w.metadata.request? = none) ∧
      ∀ w, (a.write x).2.workers.get? k = some w → w.metadata.isDeleting = true →
        w.metadata.finalizers ≠ [] := by
  rw [Api.workers_write, key]
  rcases Tracker.modify_cases found x.change with ⟨same, he⟩ | he
  · rw [he]
    refine ⟨[], .refl _, .silent, fun w hw => ?_, h.stays⟩
    have follows : Tracker.Follows old (x.change old) old :=
      Tracker.follows_of_same (of_decide_eq_true same)
    rw [Option.some.inj (hw.symm.trans found)]
    exact follows.request.trans request
  · rw [he]
    have told := Write.unheard x request (a.workers.version + 1)
    have follows : Tracker.Follows old (x.change old) (Tracker.numbered (a.workers.version + 1) old
        (Tracker.proposed old x.change)) := Tracker.follows_numbered _ _
    have key' : (Tracker.numbered (a.workers.version + 1) old
        (Tracker.proposed old x.change)).key = k := follows.key.trans (h.keyed k old found)
    revert told follows key'
    generalize Tracker.numbered (a.workers.version + 1) old (Tracker.proposed old x.change) = new
    intro told follows key'
    have left (e : Event Worker) (w : Worker) (hk : e.key = k)
        (hw : ({ a.workers with version := a.workers.version + 1 }.publish e).get? k = some w) :
        e.left? = some w := by
      rw [Tracker.get?_publish, if_pos hk.symm] at hw
      exact hw
    rcases Tracker.writeEvent_cases old new with ⟨deleting, bare, hw⟩ | ⟨stays, hw⟩
    · rw [hw]
      have deleting' : old.metadata.isDeleting = true := follows.isDeleting.symm.trans deleting
      refine ⟨_, Tracker.tells_publish _ _ _, .gone key' found
        ⟨deleting', h.stays old found deleting', fun f hf => ?_, bare⟩, fun w hw => ?_,
        fun w hw => ?_⟩
      -- Any other finalizer would still be on.
      · by_contra other
        have on := Write.hasFinalizer_change (x := x) (w := old) (f := f)
          (fun k' f' hx e => other (e.symm.trans (only k' f' hx))) (List.contains_iff_mem.mpr hf)
        have off : new.metadata.hasFinalizer f = false := Metadata.hasFinalizer_of_bare bare f
        rw [← follows.hasFinalizer, off] at on
        cases on
      · cases left (.deleted new) w key' hw
      · cases left (.deleted new) w key' hw
    · rw [hw]
      refine ⟨_, Tracker.tells_publish _ _ _, .unheard told (by rw [found]; nofun),
        fun w hw => ?_, fun w hw => ?_⟩
      · rw [← Option.some.inj (left (.updated old new) w key' hw)]
        exact follows.request.trans request
      · rw [← Option.some.inj (left (.updated old new) w key' hw)]
        exact stays

/-- **A step of an attempt that is hushed is not heard, and leaves it hushed**, unless its
worker goes. -/
theorem Hushed.step (h : Hushed k (some stage) a) (hm : stage.Moves k a stage' a' notes) :
    ∃ es, a.workers.Tells a'.workers es ∧ Echo k a es ∧ Hushed k stage' a' := by
  obtain ⟨_, @⟨st, _, obeys⟩⟩ := h.obeys
  obtain ⟨st', obeys', -⟩ := hm.view (fun _ _ => True) obeys h.keyed []
  have keyed := hm.keyed h.keyed
  have opens : (∀ w, a.workers.get? k = some w → w.metadata.request? = none) ∨
      stage.Opens k a.caches := h.request.imp id fun opens => opens stage rfl
  have going {p : Plan} (hp : p.Opens k a.caches) :
      ∀ s, some (AttemptState.going p) = some s → s.Opens k a.caches := by
    intro s e
    rw [← Option.some.inj e]
    exact hp
  cases hm with
  | look => exact ⟨[], .refl _, .silent, keyed, h.stays, ⟨st', obeys'⟩, opens.imp id going⟩
  | clock now =>
    exact ⟨[], .refl _, .silent, keyed, h.stays, ⟨st', obeys'⟩, opens.imp id fun o => going (o now)⟩
  | @write x next =>
    obtain ⟨hp⟩ := obeys
    have allowed := hp.1
    cases found : a.workers.get? k with
    | none =>
      rw [← allowed.key] at found
      rw [Api.write_of_missing found] at obeys' keyed ⊢
      refine ⟨[], .refl _, .silent, keyed, h.stays, ⟨st', obeys'⟩, ?_⟩
      exact opens.imp id fun o => going (o.2 _)
    | some old =>
      have request : (x.change old).metadata.request? = none := by
        rcases opens with none_ | ⟨rfl, -⟩
        · exact x.request_change (none_ old found)
        · exact Write.request_clearRequest k old
      obtain ⟨es, tells, echo, request', stays⟩ := h.write allowed.key found
        (fun k' f e => (e ▸ allowed : st.Writes k (.removeFinalizer k' f)).of_removal) request
      exact ⟨es, tells, echo, keyed, stays, ⟨st', obeys'⟩, .inl request'⟩
  | lose reason =>
    exact ⟨[], .refl _, .silent, keyed, h.stays, ⟨st', obeys'⟩, opens.imp id fun o => going (o.2 _)⟩
  | call =>
    exact ⟨[], .refl _, .silent, keyed, h.stays, ⟨st', obeys'⟩, .inl (opens.resolve_right id)⟩
  | reply r =>
    exact ⟨[], .refl _, .silent, keyed, h.stays, ⟨st', obeys'⟩, .inl (opens.resolve_right id)⟩
  | finish | cut =>
    exact ⟨[], .refl _, .silent, keyed, h.stays, ⟨st', obeys'⟩, .inr fun _ e => by cases e⟩

/-- Events of which only the last may be heard, if it tells that the worker of `k` is gone. -/
def Hears (k : Key) (a : Api) (es : List (Event Worker)) : Prop :=
  ∃ us ds, es = us ++ ds ∧ (∀ e ∈ us, e.Unheard) ∧
    (ds = [] ∨ ∃ old x, ds = [.deleted x] ∧ x.key = k ∧
      (us.foldl Store.apply a.workers.store).get? k = some old ∧ old.LetGo x)

/-- What is told after some steps goes on from what was told before. -/
theorem Hears.echo {es es' : List (Event Worker)} (h : Hears k a es)
    (tells : a.workers.Tells a'.workers es) (echo : Echo k a' es') : Hears k a (es ++ es') := by
  obtain ⟨us, ds, rfl, unheard, gone⟩ := h
  rcases gone with rfl | ⟨old, x, rfl, key, found, letGo⟩
  · rw [List.append_nil] at tells ⊢
    cases echo with
    | silent => exact ⟨us, [], rfl, unheard, .inl rfl⟩
    | @unheard e h found =>
      refine ⟨us ++ [e], [], (List.append_nil _).symm, fun e' he' => ?_, .inl rfl⟩
      rcases List.mem_append.mp he' with he' | he'
      · exact unheard e' he'
      · rw [List.mem_singleton.mp he']
        exact h
    | @gone old x key found letGo =>
      refine ⟨us, [.deleted x], rfl, unheard, .inr ⟨old, x, rfl, key, ?_, letGo⟩⟩
      rw [← tells.store]
      exact found
  -- Once the worker is gone there is nothing to tell of.
  · have missing : a'.workers.get? k = none := by
      show a'.workers.store.get? k = none
      rw [tells.store, List.foldl_append, List.foldl_cons, List.foldl_nil, Store.get?_apply]
      exact if_pos key.symm
    cases echo with
    | silent =>
      rw [List.append_nil]
      exact ⟨us, [.deleted x], rfl, unheard, .inr ⟨old, x, rfl, key, found, letGo⟩⟩
    | unheard _ stored => exact absurd missing stored
    | gone _ stored _ => cases missing.symm.trans stored

theorem Hushed.run {x y : Option AttemptState × Api} (h : Hushed k x.1 x.2)
    (run : Relation.ReflTransGen (Alone k) x y) :
    ∃ es, x.2.workers.Tells y.2.workers es ∧ Hears k x.2 es ∧ Hushed k y.1 y.2 := by
  induction run with
  | refl => exact ⟨[], .refl _, ⟨[], [], rfl, List.forall_mem_nil _, .inl rfl⟩, h⟩
  | @tail y z _ step ih =>
    obtain ⟨es, tells, hears, hushed⟩ := ih
    obtain ⟨stage, notes, under, moves⟩ := step
    rw [under] at hushed
    obtain ⟨es', tells', echo, hushed'⟩ := hushed.step moves
    exact ⟨es ++ es', tells.trans tells', hears.echo tells echo, hushed'⟩

/-- **An attempt never hears of its own writes**, however the predicate of the watch is set up:
every event that it causes is an update that the predicate drops, save that the last one may
tell that the worker is gone, its last finalizers having been taken off in deletion. -/
theorem echoes (keyed : a.workers.Keyed)
    (stays : ∀ w, a.workers.get? k = some w → w.metadata.isDeleting = true →
      w.metadata.finalizers ≠ [])
    (run : Relation.ReflTransGen (Alone k) (some (.going (Provision.plan k)), a) (stage', a')) :
    ∃ us ds, a.workers.Tells a'.workers (us ++ ds) ∧
      (∀ e ∈ us, (∃ old new, e = .updated old new) ∧
        ∀ (clusters : Store Cluster) (ignoreRequests : Bool) (backend : String),
          (Wiring.workerPredicate ignoreRequests backend).keeps clusters e = false) ∧
      (ds = [] ∨ ∃ old x, ds = [.deleted x] ∧ x.key = k ∧
        (us.foldl Store.apply a.workers.store).get? k = some old ∧ old.LetGo x) := by
  obtain ⟨_, tells, ⟨us, ds, rfl, unheard, gone⟩, -⟩ := (hushed_plan keyed stays).run run
  exact ⟨us, ds, tells, unheard, gone⟩

theorem alone_move (hm : stage.Moves k a stage' a' notes) : Alone k (some stage, a) (stage', a') :=
  ⟨stage, notes, rfl, hm⟩

/-- What an attempt does with the API for itself it may do here. -/
theorem alone_of_advance (tell : Nat → Timestamp) {p : Plan} {b b' : ExclusiveApi}
    {stop : Plan.Stop}
    (h : p.advance (ExclusiveApi.surroundings tell) b = (stop, b')) :
    Relation.ReflTransGen (Alone k) (some (.going p), b.api) (some (.going stop.plan), b'.api) := by
  induction p generalizing b with
  | done r =>
    cases h
    exact .refl
  | look next ih => exact (ih _ h).head (alone_move .look)
  | clock next ih => exact (ih _ h).head (alone_move (.clock _))
  | write w next ih => exact (ih _ h).head (alone_move .write)
  | actuate c next =>
    cases h
    exact .refl

/-- An API with a watched worker in deletion, which a migration is requested for. -/
def departing : Api :=
  let a := (Site.founded <| Trial.Fixture.deleting default <|
    Trial.Fixture.withFinalizer finalizer <|
      Trial.Fixture.requesting "migrate" (Trial.Fixture.worker "tenant" "pool" default)).api
  { a with workers := a.workers.watch 0 }

/-- The request is consumed, the deletion is put on record, and the worker goes with its
finalizer. -/
theorem echoes_deleted :
    ∃ (a' : Api) (us ds : List (Event Worker)),
      departing.workers.Keyed ∧
      (∀ w, departing.workers.get? ⟨"tenant", "pool"⟩ = some w → w.metadata.isDeleting = true →
        w.metadata.finalizers ≠ []) ∧
      Relation.ReflTransGen (Alone ⟨"tenant", "pool"⟩)
        (some (.going (Provision.plan ⟨"tenant", "pool"⟩)), departing) (none, a') ∧
      (a'.workers.pending 0).map Event.kind = [.created, .updated, .updated, .deleted] ∧
      departing.workers.Tells a'.workers (us ++ ds) ∧ ∀ e ∈ us, e.Unheard := by
  have keyed : departing.workers.Keyed :=
    (Tracker.keyed_empty.create default _).of_store rfl
  have held : (departing.workers.get? ⟨"tenant", "pool"⟩).all
      (·.metadata.hasFinalizer finalizer) = true := rfl
  have stays : ∀ w, departing.workers.get? ⟨"tenant", "pool"⟩ = some w →
      w.metadata.isDeleting = true → w.metadata.finalizers ≠ [] := by
    intro w found _ bare
    rw [found, Option.all_some, Metadata.hasFinalizer_of_bare bare] at held
    cases held
  have calling := (alone_of_advance (k := ⟨"tenant", "pool"⟩) (fun _ => default)
    (p := Provision.plan ⟨"tenant", "pool"⟩) (b := .of departing) rfl).tail (alone_move .call)
  have answered := calling.tail (alone_move (.reply (.ok none)))
  have gone := (answered.trans (alone_of_advance (fun _ => default) (b := .of _) rfl)).tail
    (alone_move .finish)
  obtain ⟨us, ds, tells, unheard, -⟩ := echoes keyed stays gone
  exact ⟨_, us, ds, keyed, stays, gone, rfl, tells, unheard⟩

end AttemptState

end PoolControl
