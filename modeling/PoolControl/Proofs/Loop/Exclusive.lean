import PoolControl.Proofs.Loop.Site
import PoolControl.Trial.Fixture

/-! Attempts that nobody disturbs.

An `ExclusiveApi` is one that an attempt has for itself: it looks at the API's own stores, every
write arrives, and the clock tells whatever it likes. `Passes` is what may have happened to
the worker of the attempt on the way from one state of the API to another, so that the parts of
an operation can be told one by one: each comes to the plan that follows it, having passed.
`calls_due` puts them together up to the call of the actuator, which is `due` from what the
worker shows at the start. -/
namespace PoolControl

open Provision (finalizer)

/-! ### Running and advancing -/

/-- A run goes up to the first call, makes it and goes on. -/
theorem Plan.run_eq_advance {σ : Type} (env : Surroundings σ)
    (act : Command → σ → Option Reply × σ) (p : Plan) (s : σ) :
    p.run env act s =
      match p.advance env s with
      | (.done r, s) => (.result r, s)
      | (.actuate c next, s) =>
        match act c s with
        | (some r, s) => (next r).run env act s
        | (none, s) => (.panicked, s) := by
  induction p generalizing s with
  | done r => rfl
  | look next ih => exact ih _ s
  | clock next ih => exact ih _ _
  | write w next ih => exact ih _ _
  | actuate c next =>
    rcases h : act c s with ⟨_ | r, s'⟩
    · simp only [run, advance, h]
    · simp only [run, advance, h]

/-! ### An API for one attempt -/

/-- An API that nobody but an attempt writes to. -/
structure ExclusiveApi where
  api : Api
  /-- How often the clock was read. -/
  readings : Nat
  /-- The calls of the actuator, oldest first. -/
  calls : List Call

namespace ExclusiveApi

/-- An API at the start of an attempt. -/
def of (a : Api) : ExclusiveApi := ⟨a, 0, []⟩

/-- The surroundings of an attempt whose clock tells `tell`. -/
def surroundings (tell : Nat → Timestamp) : Surroundings ExclusiveApi where
  look b := b.api.caches
  clock b := (tell b.readings, { b with readings := b.readings + 1 })
  write w b := ((b.api.write w).1, { b with api := (b.api.write w).2 })

/-- The worker under a key, which is not about to go. -/
structure Shows (b : ExclusiveApi) (k : Key) (w : Worker) : Prop where
  stored : b.api.workers.get? k = some w
  key : w.key = k
  stays : w.metadata.isDeleting = true → w.metadata.finalizers ≠ []

/-- What becomes of a worker and its API until the actuator is called, or from its error to
the end: the worker stays in deletion or out of it, with its finalizer, and gets no request. -/
structure Passes (k : Key) (b : ExclusiveApi) (w : Worker) (b' : ExclusiveApi) (w' : Worker) :
    Prop where
  shows : b'.Shows k w'
  clusters : b'.api.clusters = b.api.clusters
  calls : b'.calls = b.calls
  deleted : w'.metadata.deleted = w.metadata.deleted
  held : w.metadata.hasFinalizer finalizer = true → w'.metadata.hasFinalizer finalizer = true
  request : w.metadata.request? = none → w'.metadata.request? = none

variable {k : Key} {b b' b'' : ExclusiveApi} {w w' w'' : Worker}

theorem Passes.refl (h : b.Shows k w) : Passes k b w b w := ⟨h, rfl, rfl, rfl, id, id⟩

theorem Passes.trans (h : Passes k b w b' w') (h' : Passes k b' w' b'' w'') :
    Passes k b w b'' w'' :=
  ⟨h'.shows, h'.clusters.trans h.clusters, h'.calls.trans h.calls, h'.deleted.trans h.deleted,
    fun held => h'.held (h.held held), fun request => h'.request (h.request request)⟩

/-- The clock may be read at any time. -/
theorem Shows.read (h : b.Shows k w) (n : Nat) : Passes k b w { b with readings := n } w :=
  ⟨⟨h.stored, h.key, h.stays⟩, rfl, rfl, rfl, id, id⟩

/-! ### Parts of an operation -/

theorem Shows.cached (h : b.Shows k w) : b.api.caches.workers.get? k = some w := h.stored

/-- A write that takes no finalizer off lands. -/
theorem Shows.write (hb : b.Shows k w) {x : Write} (hk : x.key = k)
    (hx : ∀ k f, x ≠ .removeFinalizer k f) :
    (b.api.write x).1 = .ok () ∧
      ∃ w', Passes k b w { b with api := (b.api.write x).2 } w' ∧
        Tracker.Follows w (x.change w) w' := by
  subst hk
  obtain ⟨ok, outcome, _⟩ := Api.outcome_write hb.stored hb.key
  have kept {f : String} (hf : w.metadata.hasFinalizer f = true) :
      (x.change w).metadata.hasFinalizer f = true :=
    Write.hasFinalizer_change (fun k f' he => absurd he (hx k f')) hf
  have remain : w.metadata.finalizers ≠ [] → (x.change w).metadata.finalizers ≠ [] := by
    intro some_ none_
    obtain ⟨f, hf⟩ := List.exists_mem_of_ne_nil _ some_
    have has := kept (List.contains_iff_mem.mpr hf)
    rw [Metadata.hasFinalizer_of_bare none_] at has
    cases has
  refine ⟨ok, ?_⟩
  generalize hs : (b.api.write x).2.workers.get? x.key = stored at outcome
  cases outcome with
  | gone bare deleting _ => exact absurd bare (remain (hb.stays deleting))
  | @kept y _ follows _ _ =>
    refine ⟨y, ⟨⟨hs, follows.key.trans hb.key, fun deleting => ?_⟩, Api.clusters_write b.api x,
      rfl, follows.deleted, fun held => ?_, fun none_ => ?_⟩, follows⟩
    · rw [follows.finalizers]
      refine remain (hb.stays ?_)
      rw [← follows.isDeleting]
      exact deleting
    · rw [follows.hasFinalizer]
      exact kept held
    · rw [follows.request]
      exact x.request_change none_

variable (tell : Nat → Timestamp)

theorem advance_look (next : Caches → Plan) (b : ExclusiveApi) :
    (Plan.look next).advance (surroundings tell) b =
      (next b.api.caches).advance (surroundings tell) b :=
  rfl

theorem passes_write (hb : b.Shows k w) {x : Write} (hk : x.key = k)
    (hx : ∀ k f, x ≠ .removeFinalizer k f) (next : Plan) :
    ∃ b' w', (Plan.write x (Plan.unlessError next)).advance (surroundings tell) b =
        next.advance (surroundings tell) b' ∧
      Passes k b w b' w' ∧ Tracker.Follows w (x.change w) w' := by
  obtain ⟨ok, w', passes, follows⟩ := hb.write hk hx
  refine ⟨_, w', ?_, passes, follows⟩
  show (Plan.unlessError next (b.api.write x).1).advance _ _ = _
  rw [ok]
  rfl

/-- After a record the worker shows its kind and state, whether it was written or not. -/
theorem passes_record (hb : b.Shows k w) (s : OperationStatus) (next : Plan) :
    ∃ b' w', (Provision.record k s next).advance (surroundings tell) b =
        next.advance (surroundings tell) b' ∧
      Passes k b w b' w' ∧
      ∃ o, w'.status.lastOperation = some o ∧ o.kind = s.operation.kind ∧
        o.state = s.operation.state := by
  have looked : (Provision.record k s next).advance (surroundings tell) b =
      (if Provision.differs w.status s then .write (.operationStatus k s) (Plan.unlessError next)
        else next : Plan).advance (surroundings tell) b := by
    rw [Provision.record, advance_look, hb.cached]
  rw [looked]
  split
  · obtain ⟨b', w', h, passes, follows⟩ :=
      passes_write tell hb (x := .operationStatus k s) rfl nofun next
    exact ⟨b', w', h, passes, s.operation, follows.lastOperation, rfl, rfl⟩
  · rename_i same
    exact ⟨b, w, rfl, .refl hb, Provision.operation_of_not_differs (eq_false_of_ne_true same)⟩

/-- The start of an operation on a worker `v` that was seen before. -/
theorem passes_start (hb : b.Shows k w) {v : Worker} (hv : v.key = k) (kind : OperationKind)
    (phase : WorkerPhase) (description : String) (next : Plan) :
    ∃ b' w', (Provision.start v kind phase description next).advance (surroundings tell) b =
        next.advance (surroundings tell) b' ∧ Passes k b w b' w' := by
  unfold Provision.start
  split
  · exact ⟨b, w, rfl, .refl hb⟩
  · rw [hv]
    have read := hb.read (b.readings + 1)
    obtain ⟨b', w', h, passes, _⟩ := passes_record tell read.shows
      { phase
        operation := ⟨kind, .processing, description, tell b.readings⟩
        error := v.status.lastError
        observedGeneration := none
        providerStatus := none } next
    exact ⟨b', w', h, read.trans passes⟩

theorem passes_ensureFinalizer (hb : b.Shows k w) {v : Worker} (hv : v.key = k)
    (held : v.metadata.hasFinalizer finalizer = true → w.metadata.hasFinalizer finalizer = true)
    (next : Plan) :
    ∃ b' w', (Provision.ensureFinalizer v next).advance (surroundings tell) b =
        next.advance (surroundings tell) b' ∧
      Passes k b w b' w' ∧ w'.metadata.hasFinalizer finalizer = true := by
  unfold Provision.ensureFinalizer
  split
  · rename_i on
    exact ⟨b, w, rfl, .refl hb, held on⟩
  · rw [hv]
    obtain ⟨b', w', h, passes, follows⟩ := passes_write tell hb
      (x := .addFinalizer k finalizer) rfl nofun next
    refine ⟨b', w', h, passes, ?_⟩
    rw [follows.hasFinalizer]
    exact Write.hasFinalizer_addFinalizer ..

theorem passes_consumeRequest (hb : b.Shows k w) (next : Plan) :
    ∃ b' w', (Provision.consumeRequest k w next).advance (surroundings tell) b =
        next.advance (surroundings tell) b' ∧
      Passes k b w b' w' ∧ w'.metadata.request? = none := by
  unfold Provision.consumeRequest
  split
  · obtain ⟨b', w', h, passes, follows⟩ :=
      passes_write tell hb (x := .clearRequest k) rfl nofun next
    refine ⟨b', w', h, passes, ?_⟩
    rw [follows.request]
    exact Write.request_clearRequest ..
  · rename_i none_
    exact ⟨b, w, rfl, .refl hb, Option.not_isSome_iff_eq_none.mp none_⟩

/-- An error of the actuator ends the attempt, on record as an operation that did not
succeed. -/
theorem passes_fail (hb : b.Shows k w) (kind : OperationKind) (e : ActuatorError) :
    ∃ b' w', (Provision.fail k kind e).advance (surroundings tell) b =
        (.done (.error (if e.isRetryable then .retryable e.message else .terminal e.message)),
          b') ∧
      Passes k b w b' w' ∧ w'.isMigrated = false := by
  have read := hb.read (b.readings + 1 + 1)
  obtain ⟨b', w', h, passes, o, ho, _, state⟩ := passes_record tell read.shows
    { phase := .failed
      operation :=
        ⟨kind, if e.isRetryable then .error else .failed, e.message, tell b.readings⟩
      error := some ⟨e.message, e.isRetryable, tell (b.readings + 1)⟩
      observedGeneration := none
      providerStatus := none }
    (.done (.error (if e.isRetryable then .retryable e.message else .terminal e.message)))
  refine ⟨b', w', h, read.trans passes, ?_⟩
  simp only [Worker.isMigrated, ho, LastOperation.succeeded, state]
  cases e.isRetryable <;> simp

end ExclusiveApi

/-! ### The call that is due -/

namespace Provision

/-- With a cluster that is there and not failed, an attempt consumes the request and operates,
whatever answers its writes. -/
theorem advance_plan {σ : Type} (env : Surroundings σ) {s : σ} {k : Key} {w : Worker} {c : Cluster}
    (hw : (env.look s).workers.get? k = some w)
    (hc : (env.look s).clusters.get? (Cluster.keyOf k.ns) = some c) (healthy : c.isFailed = false) :
    (plan k).advance env s = (consumeRequest k w (operate w c)).advance env s := by
  simp only [plan, Plan.advance, hw, hc]
  rw [if_neg (by rw [healthy]; exact Bool.false_ne_true)]

end Provision

namespace ExclusiveApi

open Provision

variable (tell : Nat → Timestamp) {k : Key} {b : ExclusiveApi} {w v : Worker} {c : Cluster}
  {m : Call}

/-- What is due is not for a worker about to go. -/
theorem shows_of_due (hw : b.api.workers.get? w.key = some w) (hd : due w = some m) :
    b.Shows w.key w := by
  refine ⟨hw, rfl, fun deleting bare => ?_⟩
  rw [due, if_pos deleting, Metadata.hasFinalizer_of_bare bare] at hd
  cases hd

/-- What comes before a call that is due to a worker seen before. A worker that machines may be
created for is held by the finalizer. -/
theorem passes_prepare (hb : b.Shows k w) {c : Command} (hc : c.worker.key = k)
    (held : c.worker.metadata.hasFinalizer finalizer = true →
      w.metadata.hasFinalizer finalizer = true) (next : Plan) :
    ∃ b' w', (prepare c next).advance (surroundings tell) b =
        next.advance (surroundings tell) b' ∧
      Passes k b w b' w' ∧
      (Idle.creates c.call = true → w'.metadata.hasFinalizer finalizer = true) := by
  unfold prepare
  split
  · obtain ⟨b₁, w₁, h₁, passes₁, on⟩ := passes_ensureFinalizer tell hb hc held _
    obtain ⟨b₂, w₂, h₂, passes₂⟩ := passes_start tell passes₁.shows hc _ _ _ next
    exact ⟨b₂, w₂, h₁.trans h₂, passes₁.trans passes₂, fun _ => passes₂.held on⟩
  · rename_i creates
    obtain ⟨b', w', h, passes⟩ := passes_start tell hb hc _ _ _ next
    exact ⟨b', w', h, passes, fun h => absurd h creates⟩

/-- With a cluster that is there and not failed, an attempt consumes the request and operates. -/
theorem advance_plan (hw : b.api.workers.get? k = some w)
    (hc : b.api.clusters.get? (Cluster.keyOf k.ns) = some c) (healthy : c.isFailed = false) :
    (plan k).advance (surroundings tell) b =
      (consumeRequest k w (operate w c)).advance (surroundings tell) b :=
  Provision.advance_plan (surroundings tell) hw hc healthy

/-- **An attempt on a worker whose cluster is there and not failed comes to the call that the
worker is due for**, with the request consumed. -/
theorem calls_due (hb : b.Shows k w) (hc : b.api.clusters.get? (Cluster.keyOf k.ns) = some c)
    (healthy : c.isFailed = false) (hd : due w = some m) :
    ∃ b' w', (plan k).advance (surroundings tell) b =
        (.actuate ⟨m, w, c⟩ (conclude ⟨m, w, c⟩), b') ∧
      Passes k b w b' w' ∧ w'.metadata.request? = none ∧
      (Idle.creates m = true → w'.metadata.hasFinalizer finalizer = true) := by
  obtain ⟨b₁, w₁, h₁, passes₁, consumed⟩ := passes_consumeRequest tell hb (operate w c)
  obtain ⟨b₂, w₂, h₂, passes₂, held⟩ := passes_prepare tell passes₁.shows (c := ⟨m, w, c⟩) hb.key
    passes₁.held (.actuate ⟨m, w, c⟩ (conclude ⟨m, w, c⟩))
  refine ⟨b₂, w₂, ?_, passes₁.trans passes₂, passes₂.request consumed, held⟩
  rw [advance_plan tell hb.stored hc healthy, h₁, operate_of_due hd, perform, h₂]
  rfl

/-- **An attempt on a worker that is due for nothing makes no call.** -/
theorem rests_of_not_due (hw : b.api.workers.get? k = some w)
    (hc : b.api.clusters.get? (Cluster.keyOf k.ns) = some c) (healthy : c.isFailed = false)
    (hd : due w = none) :
    ∃ r b', (plan k).advance (surroundings tell) b = (.done r, b') ∧ b'.calls = b.calls := by
  rw [advance_plan tell hw hc healthy, operate_of_not_due hd]
  unfold consumeRequest
  split
  · show ∃ r b', (Plan.unlessError _ (b.api.write (.clearRequest k)).1).advance _ _ = (_, b') ∧ _
    cases (b.api.write (.clearRequest k)).1 with
    | ok => exact ⟨_, _, rfl, rfl⟩
    | error e => exact ⟨_, _, rfl, rfl⟩
  · exact ⟨_, _, rfl, rfl⟩

end ExclusiveApi

/-! ### Undisturbed attempts at a site -/

/-- The plan at a stop. -/
def Plan.Stop.plan : Stop → Plan
  | .done r => .done r
  | .actuate c next => .actuate c next

namespace Site

variable {may : Worker → Worker → Prop} {k : Key} {s : Site}

/-- The site with another stage of the attempt on `k`. -/
def staged (s : Site) (k : Key) (stage : Option AttemptState) (api : Api) (log : List Note) :
    Site :=
  ⟨api, Function.update s.attempts k stage, log⟩

/-- An attempt moves on. -/
theorem staged_move {stage : AttemptState} {stage' : Option AttemptState} {a a' : Api}
    {notes log : List Note}
    (h : stage.Moves k a stage' a' notes) :
    Step may (s.staged k (some stage) a log) (s.staged k stage' a' (notes ++ log)) := by
  have under : (s.staged k (some stage) a log).attempts k = some stage := by
    simp only [staged, Function.update_self]
  have step : Step may _ _ := .move _ under h
  rwa [staged, Function.update_idem] at step

/-- What an attempt does with the API for itself it may do at a site, with nothing in between. -/
theorem reaches_of_advance {tell : Nat → Timestamp} {p : Plan} {b b' : ExclusiveApi}
    {stop : Plan.Stop}
    (h : p.advance (ExclusiveApi.surroundings tell) b = (stop, b')) (log : List Note) :
    Reaches may (s.staged k (some (.going p)) b.api log)
      (s.staged k (some (.going stop.plan)) b'.api log) := by
  induction p generalizing b with
  | done r =>
    cases h
    exact .refl
  | look next ih => exact (ih _ h).head (staged_move .look)
  | clock next ih => exact (ih _ h).head (staged_move (.clock _))
  | write w next ih => exact (ih _ h).head (staged_move .write)
  | actuate c next =>
    cases h
    exact .refl

/-- From rest, an attempt may look its worker up first. -/
theorem reaches_looked (free : s.attempts k = none) :
    Reaches may s
      (s.staged k (some (.going (Provision.seen k (s.api.workers.get? k)))) s.api s.log) :=
  (Relation.ReflTransGen.single (.begin s k free)).tail (staged_move .look)

/-- An attempt under way that nobody disturbs any more makes the call it comes to by itself. -/
theorem calls_of_staged {s₀ : Site} {p : Plan} {a : Api} {log : List Note} {c : Command}
    {next : Reply → Plan} {b' : ExclusiveApi}
    (before : Reaches may s₀ (s.staged k (some (.going p)) a log))
    (h : p.advance (ExclusiveApi.surroundings fun _ => default) (.of a) = (.actuate c next, b')) :
    Reaches may s₀ (s.staged k (some (.calling c next)) b'.api (.called c :: log)) :=
  (before.trans (reaches_of_advance h log)).tail (staged_move .call)

/-- From rest, an attempt that nobody disturbs makes the call it comes to by itself. -/
theorem calls_of_advance {s₀ : Site} {c : Command} {next : Reply → Plan} {b' : ExclusiveApi}
    (before : Reaches may s₀ s) (free : s.attempts k = none)
    (h : (Provision.plan k).advance (ExclusiveApi.surroundings fun _ => default) (.of s.api) =
      (.actuate c next, b')) :
    Reaches may s₀ (s.staged k (some (.going (.actuate c next))) b'.api s.log) ∧
      Step may (s.staged k (some (.going (.actuate c next))) b'.api s.log)
        (s.staged k (some (.calling c next)) b'.api (.called c :: s.log)) :=
  ⟨before.trans ((reaches_of_advance h s.log).head (.begin s k free)), staged_move .call⟩

/-- An attempt that nobody disturbs after an answer ends as it does by itself. -/
theorem rests_of_advance {s₀ : Site} {c : Command} {next : Reply → Plan} {a : Api}
    {log : List Note} {e : Result} {b' : ExclusiveApi}
    (before : Reaches may s₀ (s.staged k (some (.calling c next)) a log)) (r : Reply)
    (h : (next r).advance (ExclusiveApi.surroundings fun _ => default) (.of a) = (.done e, b')) :
    Reaches may s₀ (s.staged k none b'.api (.replied c r :: log)) :=
  ((before.tail (staged_move (.reply r))).trans (reaches_of_advance h _)).tail
    (staged_move .finish)

/-- At rest, a worker may get the call that it is due for without anything else happening. -/
theorem calls_of_due {w : Worker} {c : Cluster} {m : Call} (free : s.attempts k = none)
    (shows_ : (ExclusiveApi.of s.api).Shows k w)
    (hc : s.api.clusters.get? (Cluster.keyOf k.ns) = some c) (healthy : c.isFailed = false)
    (hd : Provision.due w = some m) :
    ∃ s₁ s₂, Reaches may s s₁ ∧ s₁.log = s.log ∧ Step may s₁ s₂ ∧
      s₂.log = .called ⟨m, w, c⟩ :: s.log := by
  obtain ⟨b, _, h, _⟩ := ExclusiveApi.calls_due (fun _ => default) shows_ hc healthy hd
  obtain ⟨reaches, step⟩ : Reaches may _ _ ∧ Step may _ _ := calls_of_advance .refl free h
  exact ⟨_, _, reaches, rfl, step, rfl⟩

/-- Whatever a cluster was, it may be healthy next. -/
theorem step_healthy (s : Site) (k : Key) :
    ∃ s' c, Step may s s' ∧ s'.attempts = s.attempts ∧ s'.log = s.log ∧
      s'.api.workers = s.api.workers ∧ s'.api.clusters.get? (Cluster.keyOf k.ns) = some c ∧
      c.isFailed = false := by
  let c : Cluster := ⟨.new "" k.ns default, ⟨.healthy⟩⟩
  refine ⟨_, c, .elsewhere s { s.api with clusters := ⟨(∅ : Store Cluster).put c, 0, []⟩ } rfl rfl,
    rfl, rfl, rfl, ?_, rfl⟩
  exact (Store.get?_put _ c _).trans (if_pos rfl)

/-- A site where a worker was created in a healthy cluster, and nothing else has happened. -/
def founded (w : Worker) : Site :=
  let c := Trial.Fixture.cluster w.metadata.ns default .healthy
  let a := { Api.empty with clusters := ((∅ : Tracker Cluster).create default c).2 }
  ⟨{ a with workers := (a.workers.create default w).2 }, fun _ => none,
    noted (a.workers.create default w).1⟩

theorem reaches_founded (w : Worker) : Reaches may opened (founded w) := by
  let c := Trial.Fixture.cluster w.metadata.ns default .healthy
  have cluster : Step may opened
      ⟨{ Api.empty with clusters := ((∅ : Tracker Cluster).create default c).2 }, fun _ => none,
        []⟩ :=
    .elsewhere _ _ rfl rfl
  have worker := Relation.ReflTransGen.tail (.single cluster) (Step.create _ default w)
  rwa [List.append_nil] at worker

end Site

/-- An API where a worker was created in a healthy cluster. -/
def ExclusiveApi.founded (w : Worker) : ExclusiveApi := .of (Site.founded w).api

end PoolControl
