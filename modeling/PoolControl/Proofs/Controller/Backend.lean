import PoolControl.Proofs.Controller.Deployment
import PoolControl.Proofs.Routing.Triggers

/-! Whose workers reach the actuator.

The backend of a worker is looked at when an event is dispatched, and not again: the key that
was queued may be handed out much later, or once more after a failure, and the attempt takes
the worker as it then is. A key is `Astir` while that may still come, that is while an event
that will pass for its backend is under way, while the key is wanted, and while a caller has it.
As long as every worker under a key that is astir is at the backend (`AtHome`), so is every
worker that the actuator is called with. Only users can change that, and where they do nothing
stands between a worker of another backend and the actuator (`calls_own_unless_moved`). -/
namespace PoolControl

/-! ### Attempts -/

/-- Whether the worker that an attempt is about, if it knows one, is at a backend. -/
def Standing.At (backend : String) : Standing → Prop
  | outset => True
  | about w _ _ => w.spec.backend = backend
  | calling c => c.worker.spec.backend = backend
  | answered c _ _ _ => c.worker.spec.backend = backend
  | ended => True

/-- An attempt that is about a worker at a backend stays so, if the worker that it sees at the
outset is at the backend. -/
theorem Standing.At.step {may : Worker → Worker → Prop} {k : Key} {s s' : WorkerView}
    {backend : String}
    {st st' : Standing} (hs : WorkerView.Step may k s s') (at_ : s.standing = some st)
    (goes : s'.standing = some st') (home : ∀ w, s.stored = some w → w.spec.backend = backend)
    (h : st.At backend) : st'.At backend := by
  cases hs with
  | look under =>
    cases Option.some.inj (at_.symm.trans under)
    cases Option.some.inj goes
    cases st with
    | outset =>
      cases found : s.stored with
      | none => trivial
      | some w => exact home w found
    | _ => exact h
  | write under =>
    cases Option.some.inj (at_.symm.trans under)
    cases Option.some.inj goes
    rename_i w _ _ _ _ _ _
    cases st <;> cases w <;> exact h
  | miss | lose =>
    cases Option.some.inj goes
    trivial
  | call under allowed =>
    cases Option.some.inj (at_.symm.trans under)
    cases Option.some.inj goes
    cases st with
    | about w held touched =>
      show Worker.Spec.backend _ = backend
      rw [allowed.1]
      exact h
    | _ => exact allowed.elim
  | reply under r =>
    cases Option.some.inj (at_.symm.trans under)
    cases Option.some.inj goes
    exact h
  | begin free =>
    cases Option.some.inj goes
    trivial
  | finish | cut => cases goes
  | _ =>
    cases Option.some.inj (at_.symm.trans goes)
    exact h

namespace Deployment

variable {x : Charge} {d : Deployment} {backend : String} {k : Key}

/-! ### Keys that are astir -/

/-- Whether an attempt on a key may still come of what happened at a backend. -/
def Astir (backend : String) (d : Deployment) (k : Key) : Prop :=
  (∃ e ∈ d.underway, e.key = k ∧ e.object.spec.backend = backend) ∨
    d.service.Wants k ∨ (d.duties k).isSome = true

/-- Whether every worker under a key that is astir is at the backend. -/
def AtHome (backend : String) (d : Deployment) : Prop :=
  ∀ k w, d.Astir backend k → d.api.workers.get? k = some w → w.spec.backend = backend

/-- Whether every attempt is about a worker at the backend. -/
def Attends (backend : String) (d : Deployment) : Prop :=
  ∀ k c stage, d.duties k = some (c, .visiting stage) →
    ∃ st : Standing, stage.Obeys k st ∧ st.At backend

/-- A deployment where no more is astir and the same is stored. -/
theorem AtHome.of_astir (h : d.AtHome backend) {d' : Deployment}
    (astir : ∀ k, d'.Astir backend k → d.Astir backend k)
    (stored : ∀ k, d'.api.workers.get? k = d.api.workers.get? k) : d'.AtHome backend :=
  fun k w hk found => h k w (astir k hk) ((stored k).symm.trans found)

/-- What is told of a write is at home if the worker was. -/
theorem AtHome.write (h : d.AtHome backend) (fed : d.api.workers.Fed 0) (w : Write)
    {d' : Deployment}
    (api : d'.api = (d.api.write w).2) (arrived : d'.arrived = d.arrived)
    (rest : ∀ k, d'.service.Wants k ∨ (d'.duties k).isSome = true →
      d.service.Wants k ∨ (d.duties k).isSome = true) : d'.AtHome backend := by
  intro k y astir stored
  rw [api] at stored
  obtain ⟨old, found, spec⟩ := Api.spec_write fed.sound.dated.keyed stored
  -- An event that the write told is about what is stored now. All else was astir before.
  have before (e : Event Worker) (under : e ∈ d.underway) (key : e.key = k)
      (typed : e.object.spec.backend = backend) : y.spec.backend = backend := by
    rw [spec]
    exact h k old (.inl ⟨e, under, key, typed⟩) found
  rcases astir with ⟨e, under, key, typed⟩ | still
  · rw [underway, arrived, api, Api.workers_write_answer] at under
    rw [Api.workers_write_answer] at stored
    rcases fed.answer_cases (.modify w.key w.change) with same | ⟨e', -, pending, get⟩
    · rw [same] at under
      exact before e under key typed
    · rw [pending, ← List.append_assoc] at under
      rcases List.mem_append.mp under with old_ | new
      · exact before e old_ key typed
      · obtain rfl := List.mem_singleton.mp new
        rw [get, if_pos key.symm] at stored
        rw [← Event.object_of_left? stored]
        exact typed
  · rw [spec]
    exact h k old (.inr (rest k still)) found

/-- The event of a worker that is dispatched was astir. -/
theorem astir_dispatch (h : d.Sound x) (k : Key)
    (astir : (d.next x .dispatch).Astir x.backend k) : d.Astir x.backend k := by
  unfold next at astir
  cases arrived : d.arrived with
  | none => simpa only [arrived] using astir
  | some e =>
    simp only [arrived] at astir
    have first : e ∈ d.underway := by
      rw [underway, arrived]
      exact List.mem_append_left _ (List.mem_singleton_self e)
    rcases astir with ⟨e', under, key, typed⟩ | wants | had
    · exact .inl ⟨e', List.mem_append_right _ under, key, typed⟩
    · refine ((h.wants_dispatch _ e k).mp wants).elim (fun old => .inr (.inl old)) fun queued => ?_
      obtain ⟨passes, key⟩ := (Wiring.mem_keys_workers e).mp queued
      exact .inl ⟨e, first, key.symm, ((Predicate.keeps_worker_iff e).mp passes).2.2⟩
    · exact .inr (.inr had)

/-- A key that an attempt is begun on was wanted. -/
theorem astir_serve (h : d.Sound x) {a : Deed Key} (ha : d.Allows (.serve a)) (k : Key)
    (astir : (d.next x (.serve a)).Astir backend k) : d.Astir backend k := by
  refine astir.imp id (Or.rec (fun wants => .inl (h.wants_of_serve ha wants)) fun had => ?_)
  rcases begun_cases d.duties (d.service.hands? a) k with same | ⟨c, hands, -⟩
  · exact .inr (same ▸ had)
  · exact .inl (Service.wants_of_hands hands h.orderly.tidy)

/-- What a caller wants again it had. -/
theorem wants_of_told (h : d.Sound x) {c : Nat} {what : Closing} {todo : List Closing}
    (about : d.duties k = some (c, .closing (what :: todo))) (k' : Key)
    (astir : (d.told k c what todo).service.Wants k' ∨
      ((d.told k c what todo).duties k').isSome = true) :
    d.service.Wants k' ∨ (d.duties k').isSome = true := by
  rw [h.wants_told about, duties_told] at astir
  by_cases hk : k' = k
  · subst hk
    rw [about]
    exact .inr rfl
  · rw [if_neg hk] at astir
    refine astir.imp (Or.rec id fun asked => absurd ?_ hk) id
    cases what with
    | addAfter | addRateLimited =>
      exact Option.some.inj (Option.ite_none_right_eq_some.mp asked).2.symm
    | _ => cases asked

/-- **Whatever the controller does, every worker that is astir stays at home.** Only users can
change that. -/
theorem AtHome.next (home : d.AtHome x.backend) (h : d.Sound x) {a : Act} (ha : d.Allows a)
    (tame : ∀ r, a ≠ .worker r) : (d.next x a).AtHome x.backend := by
  cases a with
  | worker r => exact absurd rfl (tame r)
  | cluster r => exact home
  | dependents => exact home
  | report k s => exact home.write h.workers (.state k s) rfl rfl fun _ => id
  | take =>
    refine home.of_astir (fun k astir => ?_) fun _ => rfl
    rw [Astir, h.underway_take (Option.isNone_iff_eq_none.mp ha)] at astir
    exact astir
  | takeCluster => exact home
  | dispatch =>
    refine home.of_astir (astir_dispatch h) fun k => ?_
    unfold Deployment.next
    cases d.arrived <;> rfl
  | dispatchCluster =>
    unfold Deployment.next
    cases d.arrivedCluster with
    | none => exact home
    | some e =>
      rintro k w (told | wants | had) stored
      · exact home k w (.inl told) stored
      · refine ((h.wants_dispatch _ e k).mp wants).elim
          (fun old => home k w (.inr (.inl old)) stored) fun queued => ?_
        -- The backend of the worker is looked at as it is stored.
        have keyed : ∀ k w, d.api.caches.workers.get? k = some w → w.key = k :=
          h.workers.sound.dated.keyed
        obtain ⟨-, -, w', found, passes⟩ := (Wiring.mem_keys_clusters keyed e).mp queued
        obtain rfl : w' = w := Option.some.inj (found.symm.trans stored)
        exact ((Predicate.keepsObject_worker_iff w').mp passes).2
      · exact home k w (.inr (.inr had)) stored
  | serve a => exact home.of_astir (astir_serve h ha) fun _ => rfl
  | move k cue =>
    rcases move_cases x d k cue with ⟨-, he⟩ | ⟨c, stage, under, he⟩
    · rwa [he]
    · rw [he]
      have rest (k' : Key) :
          d.service.Wants k' ∨ ((d.moved k c stage cue).duties k').isSome = true →
            d.service.Wants k' ∨ (d.duties k').isSome = true := by
        rw [duties_moved]
        refine Or.imp id fun had => ?_
        by_cases hk : k' = k
        · rw [hk, under]
          rfl
        · rwa [if_neg hk] at had
      rcases stage.next_api d.api cue with same | ⟨w, next, -, written⟩
      · refine home.of_astir (fun k' astir => ?_) fun k' => ?_
        · refine astir.imp (fun ⟨e, told, rest⟩ => ⟨e, ?_, rest⟩) (rest k')
          rwa [underway, moved, same] at told
        · rw [moved, same]
      · exact home.write h.workers w written rfl rest
  | tell k =>
    rcases tell_cases x d k with he | ⟨c, what, todo, about, he⟩
    · rwa [he]
    · rw [he]
      exact home.of_astir (fun k' => Or.imp id (wants_of_told h about k')) fun _ => rfl

/-! ### Attempts on workers at the backend -/

/-- Attempts go on with the worker that they saw, which was at home. -/
theorem Attends.next (attends : d.Attends x.backend) (home : d.AtHome x.backend) (h : d.Sound x)
    (a : Act) : (d.next x a).Attends x.backend := by
  cases a with
  | dispatch =>
    unfold Deployment.next
    cases d.arrived <;> exact attends
  | dispatchCluster =>
    unfold Deployment.next
    cases d.arrivedCluster <;> exact attends
  | serve a =>
    intro k c stage under
    rcases begun_cases d.duties (d.service.hands? a) k with same | ⟨c', -, began⟩
    · exact attends k c stage (same.symm.trans under)
    · cases began.symm.trans under
      exact ⟨.outset, .going (Provision.obeys_plan k), trivial⟩
  | move k cue =>
    rcases move_cases x d k cue with ⟨-, he⟩ | ⟨c, stage, under, he⟩
    · rwa [he]
    · rw [he]
      intro k' c' stage' under'
      rw [duties_moved] at under'
      split at under'
      · rename_i hk
        subst hk
        obtain ⟨st, obeys, at_⟩ := attends k' c stage under
        obtain ⟨notes, moves⟩ := stage.moves_next k' d.api cue
        obtain ⟨st', rel, step⟩ :=
          moves.view (fun _ _ => True) obeys h.workers.sound.dated.keyed []
        rw [(Prod.mk.inj (Option.some.inj under')).2] at rel
        cases rel with | some rel
        refine ⟨_, rel, at_.step step rfl rfl fun w found => ?_⟩
        exact home k' w (.inr (.inr (by rw [under]; rfl))) found
      · exact attends k' c' stage' under'
  | tell k =>
    rcases tell_cases x d k with he | ⟨c, what, todo, about, he⟩
    · rwa [he]
    · rw [he]
      intro k' c' stage under
      rw [duties_told] at under
      split at under
      · exact absurd under (d.service.left_ne_visiting k c c' what todo stage)
      · exact attends k' c' stage under
  | _ => exact attends

/-- At first every event tells of a worker as it is stored. -/
theorem atHome_opened (x : Charge) (p : Backoff.Policy) {a : Api} (h : a.Unwatched) :
    (opened x p a).AtHome x.backend := by
  rintro k w (⟨e, under, key, typed⟩ | wants | had) stored
  · have pending : (a.workers.watch 0).pending 0 = a.workers.list.map .created := by
      show (a.workers.feeds ++ [_]).flatMap _ = _
      rw [h.unwatched.1]
      exact List.append_nil _
    have told : e ∈ a.workers.list.map Event.created := pending ▸ under
    obtain ⟨w', listed, rfl⟩ := List.mem_map.mp told
    have first : a.workers.get? k = some w' := key ▸ h.workers.dated.keyed.get?_of_mem listed
    have same : w' = w := Option.some.inj (first.symm.trans stored)
    exact same ▸ typed
  · exact absurd wants (Service.not_wants_of_empty (Service.orderly_opened p) rfl rfl rfl rfl rfl k)
  · cases had

/-! ### Undisturbed attempts -/

/-- An attempt takes its next step and goes on from there. -/
theorem moves_first {c : Nat} {p p' stop : Plan}
    (under : d.duties k = some (c, .visiting (.going p))) (cue : Cue) {a : Api}
    (goes : (AttemptState.going p).next d.api cue = (.visiting (.going p'), a))
    (rest : ∀ d' : Deployment, d'.api = a → d'.duties k = some (c, .visiting (.going p')) →
      ∃ cues : List Cue, (d'.run x (cues.map (.move k))).duties k =
        some (c, .visiting (.going stop))) :
    ∃ cues : List Cue, (d.run x (cues.map (.move k))).duties k =
      some (c, .visiting (.going stop)) := by
  have moved : d.next x (.move k cue) = d.moved k c (.going p) cue := by
    simp only [next, under]
    rfl
  obtain ⟨cues, there⟩ := rest (d.moved k c (.going p) cue) (congrArg Prod.snd goes) (by
    rw [duties_moved, if_pos rfl, goes])
  refine ⟨cue :: cues, ?_⟩
  rwa [List.map_cons, run_cons, moved]

/-- What an attempt comes to that has the API for itself it may come to here, with nothing in
between. -/
theorem moves_of_advance (x : Charge) {tell : Nat → Timestamp} {p : Plan} {b b' : ExclusiveApi}
    {stop : Plan.Stop} (h : p.advance (ExclusiveApi.surroundings tell) b = (stop, b'))
    {d : Deployment}
    (api : d.api = b.api) {c : Nat} (under : d.duties k = some (c, .visiting (.going p))) :
    ∃ cues : List Cue, (d.run x (cues.map (.move k))).duties k =
      some (c, .visiting (.going stop.plan)) := by
  induction p generalizing b d with
  | done r =>
    cases h
    exact ⟨[], under⟩
  | look next ih =>
    refine moves_first under ⟨default, none, none⟩ rfl fun d' same goes => ?_
    rw [api] at same goes
    exact ih _ h same goes
  | clock next ih =>
    exact moves_first under ⟨tell b.readings, none, none⟩ rfl fun d' same goes =>
      ih _ (b := { b with readings := b.readings + 1 }) h (same.trans api) goes
  | write w next ih =>
    refine moves_first under ⟨default, none, none⟩ rfl fun d' same goes => ?_
    rw [api] at same goes
    exact ih _ h same goes
  | actuate c next =>
    cases h
    exact ⟨[], under⟩

/-- Attempts may move on at any time. -/
theorem lawful_moves (x : Charge) (d : Deployment) (k : Key) (cues : List Cue) :
    d.Lawful x (cues.map (.move k)) := by
  refine System.throughout_of_forall (fun a mem d => ?_) d
  obtain ⟨cue, -, rfl⟩ := List.mem_map.mp mem
  trivial

/-! ### Calls -/

/-- The call that the attempt on a key waits for the actuator to answer. -/
def calling (d : Deployment) (k : Key) : Option Command :=
  match d.duties k with
  | some (_, .visiting (.calling c _)) => some c
  | _ => none

/-- Users leave every worker that is astir at the backend. -/
def Minds (x : Charge) (d : Deployment) (a : Act) : Prop :=
  ∀ r, a = .worker r → (d.next x a).AtHome x.backend

theorem minds_of_idle {a : Act} (idle : ∀ r, a ≠ .worker r) (d : Deployment) : d.Minds x a :=
  fun r hr => absurd hr (idle r)

/-- Where every worker is at the backend, those that are astir are. -/
theorem atHome_of_list (h : ∀ w ∈ d.api.workers.list, w.spec.backend = backend) :
    d.AtHome backend :=
  fun k w _ stored => h w (OrderedMap.mem_values.mpr ⟨k, stored⟩)

theorem attends_run (h : d.Sound x) (home : d.AtHome x.backend) (attends : d.Attends x.backend)
    {l : List Act} (lawful : d.Lawful x l) (minded : d.Throughout x (Minds x) l) :
    (d.run x l).Attends x.backend := by
  refine ((lawful.and minded).keeps
    (I := fun d => d.Sound x ∧ d.AtHome x.backend ∧ d.Attends x.backend) ?_ ⟨h, home, attends⟩).2.2
  intro d a ⟨h, home, attends⟩ ⟨allowed, minds⟩
  refine ⟨h.next allowed, ?_, attends.next home h a⟩
  by_cases user : ∃ r, a = .worker r
  · obtain ⟨r, hr⟩ := user
    exact minds r hr
  · exact home.next h allowed fun r hr => user ⟨r, hr⟩

/-- The worker of a call is the one that the attempt is about. -/
theorem Attends.calling (attends : d.Attends backend) {c : Command}
    (called : d.calling k = some c) : c.worker.spec.backend = backend := by
  unfold Deployment.calling at called
  split at called
  · rename_i n c' next under
    cases called
    obtain ⟨st, obeys, at_⟩ := attends k n _ under
    cases obeys
    exact at_
  · cases called

/-- An attempt that nobody disturbs comes to the call that the worker is due for. -/
theorem calls_due (h : d.Sound x) {n : Nat} {w : Worker} {c : Cluster} {m : Call}
    (under : d.duties k = some (n, .visiting (.going (Provision.plan k))))
    (stored : d.api.workers.get? k = some w)
    (clustered : d.api.clusters.get? (Cluster.keyOf k.ns) = some c) (healthy : c.isFailed = false)
    (due : Provision.due w = some m) :
    ∃ cues : List Cue, (d.run x (cues.map (.move k))).calling k = some ⟨m, w, c⟩ := by
  obtain rfl : w.key = k := h.workers.sound.dated.keyed k w stored
  obtain ⟨b, -, comes, -⟩ := ExclusiveApi.calls_due (b := .of d.api) (fun _ => default)
    (ExclusiveApi.shows_of_due stored due) clustered healthy due
  obtain ⟨cues, there⟩ := moves_of_advance x comes rfl under
  refine ⟨cues ++ [⟨default, none, none⟩], ?_⟩
  rw [List.map_append, run_append, List.map_singleton, run_cons]
  simp only [Deployment.next, there]
  simp only [calling, run, System.run, Function.update_self]
  rfl

/-- **Whose workers the actuator is called with.** As long as users leave every worker that is
astir at the backend, no worker of another one gets there. Once they do not, nothing looks at
the backend again: an attempt on a worker comes to the call that it is due for, whatever its
backend. -/
theorem calls_own_unless_moved (x : Charge) (p : Backoff.Policy) {a : Api} (ha : a.Unwatched)
    {l : List Act} (lawful : (opened x p a).Lawful x l) :
    ((opened x p a).Throughout x (Minds x) l → ∀ k c,
      ((opened x p a).run x l).calling k = some c → c.worker.spec.backend = x.backend) ∧
    ∀ k n w c m,
      ((opened x p a).run x l).duties k = some (n, .visiting (.going (Provision.plan k))) →
      ((opened x p a).run x l).api.workers.get? k = some w →
      ((opened x p a).run x l).api.clusters.get? (Cluster.keyOf k.ns) = some c →
      c.isFailed = false → Provision.due w = some m →
      ∃ l', (opened x p a).Lawful x (l ++ l') ∧
        ((opened x p a).run x (l ++ l')).calling k = some ⟨m, w, c⟩ := by
  have sound := sound_opened x p ha
  constructor
  · intro minded k c called
    refine Attends.calling (attends_run sound (atHome_opened x p ha) ?_ lawful minded) called
    intro k n stage under
    cases under
  · intro k n w c m under stored clustered healthy due
    obtain ⟨cues, called⟩ := calls_due (sound.run lawful) under stored clustered healthy due
    refine ⟨cues.map (.move k), ?_, ?_⟩
    · exact (throughout_append ..).mpr ⟨lawful, lawful_moves x _ k cues⟩
    · rwa [run_append]

/-! ### A worker that moves away -/

/-- A controller of the local backend that heeds requests. -/
def heedful : Charge := ⟨false, "local"⟩

/-- The worker that the runs below are about. -/
def pool : Worker := Trial.Fixture.worker "tenant" "pool" default

/-- The worker is queued, its user labels it, and an attempt comes to the call. -/
def labelled : List Act :=
  [.take, .dispatch, .worker (.modify pool.key fun w =>
      { w with metadata.labels := w.metadata.labels.insert "team" "blue" }), .serve (.ask 0)] ++
    List.replicate 7 (.move pool.key ⟨default, none, none⟩)

/-- An attempt fails for now. Before the retry begins the user moves the worker to another
backend. -/
def departed : List Act :=
  [.take, .dispatch, .serve (.ask 0)] ++
    List.replicate 13 (.move pool.key ⟨default, none, some (.error (.retryable "busy"))⟩) ++
    [.tell pool.key, .tell pool.key,
      .worker (.modify pool.key fun w => { w with spec.backend := "other" }),
      .serve (.pass 100000000), .serve (.expire pool.key 100000000), .serve (.deliver pool.key),
      .serve (.ask 0)]

/-- The worker that its user labelled is still at the backend when the actuator gets it. The one
that its user moved may get there, too. -/
theorem calls_own_unless_moved_labelled :
    let d := opened heedful default (Site.founded pool).api
    (d.Lawful heedful labelled ∧ d.Throughout heedful (Minds heedful) labelled ∧
      ∃ c, (d.run heedful labelled).calling pool.key = some c ∧
        c.worker.metadata.labels.get? "team" = some "blue" ∧ c.worker.spec.backend = "local") ∧
    d.Lawful heedful departed ∧
      ∃ l c, d.Lawful heedful (departed ++ l) ∧
        (d.run heedful (departed ++ l)).calling pool.key = some c ∧
        c.worker.spec.backend = "other" := by
  intro d
  have minded : d.Throughout heedful (Minds heedful) labelled := by
    refine (throughout_append ..).mpr ⟨⟨?take, ?dispatch, ?label, ?ask, trivial⟩, ?moves⟩
    case label => exact fun _ _ => atHome_of_list (by decide)
    case moves =>
      refine System.throughout_of_forall (fun a moves d => minds_of_idle (fun r same => ?_) d) _
      cases (List.eq_of_mem_replicate moves).symm.trans same
    all_goals
      refine minds_of_idle (fun r same => ?_) _
      cases same
  have lawful : d.Lawful heedful labelled := by decide
  have lawful' : d.Lawful heedful departed := by decide
  refine ⟨⟨lawful, minded, ?_⟩, lawful', ?_⟩
  · have called : ((d.run heedful labelled).calling pool.key).map
        (·.worker.metadata.labels.get? "team") = some (some "blue") := by decide
    obtain ⟨c, called, blue⟩ := Option.map_eq_some_iff.mp called
    refine ⟨c, called, blue, ?_⟩
    exact (calls_own_unless_moved heedful default (Site.unwatched_founded pool) lawful).1 minded _ c
      called
  · obtain ⟨l, lawful, called⟩ := (calls_own_unless_moved heedful default
      (Site.unwatched_founded pool) lawful').2 pool.key 0 _ _ .reconcile rfl rfl rfl rfl rfl
    exact ⟨l, _, lawful, called, rfl⟩

/-- Its retry calls the actuator with a worker that is at another backend. -/
theorem calls_foreign :
    let d := opened heedful default (Site.founded pool).api
    let l := departed ++ List.replicate 3 (.move pool.key ⟨default, none, none⟩)
    d.Lawful heedful l ∧
      ((d.run heedful l).calling pool.key).map (·.worker.spec.backend) = some "other" ∧
      "other" ≠ heedful.backend := by
  decide

end Deployment

end PoolControl
