import PoolControl.Loop.Report
import PoolControl.Proofs.Api.Writers
import PoolControl.Proofs.Loop.Exclusive

/-! Attempts that see an old cache.

Both loops look at caches and write to the API, and skip a write if the cache shows its
outcome. A `Lag` is an API with an attempt that has it for itself, but sees caches that show
anything at all: they may be older than the API, and change from look to look. Between two
readings of the clock an attempt looks at the store of a kind once at most, so what the
caches show is a function of the number of readings.

`advance_record` is what the provisioning loop leaves on record: what it meant to, or what was
there before if the cache shows it already (`Known`). So a record can get lost: a cache that
still shows the outcome of an earlier attempt hides that this one has put the operation on
record as processing. `shown_iff` says when the API shows the outcome of an attempt, for the
records of operations and for the reports of states. -/
namespace PoolControl

/-- What an operation on record tells, its time apart. -/
def LastOperation.gist (o : LastOperation) : OperationKind × OperationState × String :=
  (o.kind, o.state, o.description)

/-- What an error on record tells, its time apart. -/
def LastError.gist (e : LastError) : String × Bool := (e.description, e.retryable)

/-- The status shows phase, operation and error of a record. -/
def Worker.Status.Shows (t : Worker.Status) (s : OperationStatus) : Prop :=
  t.phase = some s.phase ∧
    t.lastOperation.map LastOperation.gist = some s.operation.gist ∧
    t.lastError.map LastError.gist = s.error.map LastError.gist

instance (t : Worker.Status) (s : OperationStatus) : Decidable (t.Shows s) := by
  unfold Worker.Status.Shows
  infer_instance

namespace Provision

/-- The cache shows a record already, so that it is not written. -/
def Known (caches : Caches) (k : Key) (s : OperationStatus) : Prop :=
  ∃ u, caches.workers.get? k = some u ∧ differs u.status s = false

/-- No outcome is an announcement. -/
theorem not_shows_outcome {t : Worker.Status} {c : Command} {r : Reply}
    (h : t.Shows (announced c)) : ¬ t.Shows (outcome c r) := by
  intro h'
  have same : some (announced c).operation.gist = some (outcome c r).operation.gist :=
    h.2.1.symm.trans h'.2.1
  have state : OperationState.processing = (outcome c r).operation.state :=
    congrArg (fun g => g.2.1) (Option.some.inj same)
  cases r with
  | ok data =>
    simp only [outcome] at state
    split at state <;> cases state
  | error e =>
    simp only [outcome] at state
    split at state <;> cases state

/-- When an error occurred does not matter. -/
theorem differs_restamp (t : Worker.Status) (s : OperationStatus) (d : String) (b : Bool)
    (now later : Timestamp) :
    differs t { s with error := some ⟨d, b, now⟩ } =
      differs t { s with error := some ⟨d, b, later⟩ } := by
  have same : sameError t.lastError (some ⟨d, b, now⟩) =
      sameError t.lastError (some ⟨d, b, later⟩) := by
    cases t.lastError <;> rfl
  simp only [differs, same]

end Provision

open Provision

/-- An API, and how often the clock was read. -/
structure Lag where
  api : Api
  readings : Nat

namespace Lag

/-- The surroundings of an attempt that sees `cache n` when the clock was read `n` times. -/
def surroundings (tell : Nat → Timestamp) (cache : Nat → Caches) : Surroundings Lag where
  look l := cache l.readings
  clock l := (tell l.readings, { l with readings := l.readings + 1 })
  write w l := ((l.api.write w).1, { l with api := (l.api.write w).2 })

/-- The worker that the API has under a key, which is not about to go. -/
structure Keeps (l : Lag) (k : Key) (v : Worker) : Prop where
  keyed : l.api.workers.Keyed
  stored : l.api.workers.get? k = some v
  stays : v.metadata.isDeleting = true → v.metadata.finalizers ≠ []

variable (tell : Nat → Timestamp) (cache : Nat → Caches) {k : Key} {l : Lag} {v w : Worker}

theorem Keeps.eq (h : l.Keeps k v) {v' : Worker} (found : l.api.workers.get? k = some v') :
    v' = v :=
  Option.some.inj (found.symm.trans h.stored)

/-- The clock may be read at any time. -/
theorem Keeps.read (h : l.Keeps k v) (n : Nat) : Keeps { l with readings := n } k v :=
  ⟨h.keyed, h.stored, h.stays⟩

/-! ### Writes -/

/-- A write lands, and the worker is what the write makes of it. -/
theorem Keeps.write (h : l.Keeps k v) {x : Write} (hk : x.key = k)
    (hx : ∀ k f, x ≠ .removeFinalizer k f) :
    (l.api.write x).1 = .ok () ∧ ∃ v', Keeps { l with api := (l.api.write x).2 } k v' ∧
      (x.Idle v ∧ v' = v ∨ ∃ n, v' = (x.change v).versioned n) := by
  have shows_ : (ExclusiveApi.of l.api).Shows k v := ⟨h.stored, h.keyed k v h.stored, h.stays⟩
  obtain ⟨ok, v', passes, -⟩ := shows_.write hk hx
  subst hk
  exact ⟨ok, v', ⟨Api.keyed_write h.keyed x, passes.shows.stored, passes.shows.stays⟩,
    Api.left_write h.stored (h.keyed _ v h.stored) passes.shows.stored⟩

theorem advance_write (h : l.Keeps k v) {x : Write} (hk : x.key = k)
    (hx : ∀ k f, x ≠ .removeFinalizer k f) (next : Plan) :
    ∃ l' v', (Plan.write x (Plan.unlessError next)).advance (surroundings tell cache) l =
        next.advance (surroundings tell cache) l' ∧
      l'.Keeps k v' ∧ l'.readings = l.readings ∧
      (x.Idle v ∧ v' = v ∨ ∃ n, v' = (x.change v).versioned n) := by
  obtain ⟨ok, v', keeps, what⟩ := h.write hk hx
  refine ⟨_, v', ?_, keeps, rfl, what⟩
  show (Plan.unlessError next (l.api.write x).1).advance _ _ = _
  rw [ok]
  rfl

/-- A record that is written is shown. -/
theorem shows_written {s : OperationStatus} {v' : Worker}
    (h : (Write.operationStatus k s).Idle v ∧ v' = v ∨
      ∃ n, v' = ((Write.operationStatus k s).change v).versioned n) : v'.status.Shows s := by
  rcases h with ⟨idle, rfl⟩ | ⟨n, rfl⟩
  · have same : ({ v' with status := s.apply v'.status } : Worker).unsigned = v'.unsigned :=
      of_decide_eq_true idle
    have phase : some s.phase = v'.status.phase :=
      congrArg (fun w : Worker => w.status.phase) same
    have operation : some s.operation = v'.status.lastOperation :=
      congrArg (fun w : Worker => w.status.lastOperation) same
    have error : s.error = v'.status.lastError :=
      congrArg (fun w : Worker => w.status.lastError) same
    rw [Worker.Status.Shows, ← phase, ← operation, ← error]
    exact ⟨rfl, rfl, rfl⟩
  · exact ⟨rfl, rfl, rfl⟩

/-! ### Parts of an attempt -/

/-- **A record is written or known.** What is shown afterwards is the record, or what was shown
before if the cache shows it. -/
theorem advance_record (h : l.Keeps k v) (s : OperationStatus) (next : Plan) :
    ∃ l' v', (record k s next).advance (surroundings tell cache) l =
        next.advance (surroundings tell cache) l' ∧
      l'.Keeps k v' ∧ l'.readings = l.readings ∧
      (Known (cache l.readings) k s ∧ v'.status = v.status ∨
        ¬ Known (cache l.readings) k s ∧ v'.status.Shows s) := by
  obtain ⟨l', v', written, keeps, readings, what⟩ :=
    advance_write tell cache h (x := .operationStatus k s) rfl nofun next
  have shows_ := shows_written what
  cases cached : (cache l.readings).workers.get? k with
  | none =>
    refine ⟨l', v', ?_, keeps, readings, .inr ⟨?_, shows_⟩⟩
    · rw [← written, record, Plan.advance]
      simp only [surroundings, cached]
    · rintro ⟨u, found, -⟩
      rw [cached] at found
      cases found
  | some u =>
    have looked : (record k s next).advance (surroundings tell cache) l =
        (if differs u.status s then .write (.operationStatus k s) (Plan.unlessError next)
          else next : Plan).advance (surroundings tell cache) l := by
      rw [record, Plan.advance]
      simp only [surroundings, cached]
    rw [looked]
    split
    · rename_i differs_
      refine ⟨l', v', written, keeps, readings, .inr ⟨?_, shows_⟩⟩
      rintro ⟨u', found, same⟩
      rw [cached] at found
      rw [← Option.some.inj found, differs_] at same
      cases same
    · rename_i same
      exact ⟨l, v, rfl, h, rfl, .inl ⟨⟨u, cached, eq_false_of_ne_true same⟩, rfl⟩⟩

/-- A write that leaves the status alone does so whether it has an effect or not. -/
theorem status_of_change {x : Write} {v' : Worker} (hx : (x.change v).status = v.status)
    (h : x.Idle v ∧ v' = v ∨ ∃ n, v' = (x.change v).versioned n) : v'.status = v.status := by
  rcases h with ⟨-, rfl⟩ | ⟨n, rfl⟩
  · rfl
  · exact hx

theorem advance_consumeRequest (h : l.Keeps k v) (w : Worker) (next : Plan) :
    ∃ l' v', (consumeRequest k w next).advance (surroundings tell cache) l =
        next.advance (surroundings tell cache) l' ∧ l'.Keeps k v' ∧ v'.status = v.status := by
  unfold consumeRequest
  split
  · obtain ⟨l', v', written, keeps, -, what⟩ :=
      advance_write tell cache h (x := .clearRequest k) rfl nofun next
    exact ⟨l', v', written, keeps, status_of_change rfl what⟩
  · exact ⟨l, v, rfl, h, rfl⟩

theorem advance_ensureFinalizer (h : l.Keeps k v) (hw : w.key = k) (next : Plan) :
    ∃ l' v', (ensureFinalizer w next).advance (surroundings tell cache) l =
        next.advance (surroundings tell cache) l' ∧ l'.Keeps k v' ∧ v'.status = v.status := by
  unfold ensureFinalizer
  split
  · exact ⟨l, v, rfl, h, rfl⟩
  · obtain ⟨l', v', written, keeps, -, what⟩ :=
      advance_write tell cache h (x := .addFinalizer w.key finalizer) hw
        nofun next
    refine ⟨l', v', written, keeps, status_of_change ?_ what⟩
    simp only [Write.change]
    split <;> rfl

/-- An attempt has come to a call. The operation is on record as announced, or the record is as
before since the operation is a retry or the cache shows the announcement. -/
structure Comes (cache : Nat → Caches) (k : Key) (v : Worker) (c : Command) (l' : Lag) : Prop where
  reached : ∃ v', l'.Keeps k v' ∧
    (v'.status = v.status ∧ (isRetry c.worker.status (operationOf c) = true ∨
        Known (cache l'.readings) k (announced c)) ∨
      v'.status.Shows (announced c) ∧ ¬ (isRetry c.worker.status (operationOf c) = true ∨
        Known (cache l'.readings) k (announced c)))

theorem Comes.of_status {cache : Nat → Caches} {v₁ : Worker} {c : Command}
    (same : v₁.status = v.status)
    (h : Comes cache k v₁ c l) : Comes cache k v c l := by
  obtain ⟨v', keeps, what⟩ := h.reached
  rw [same] at what
  exact ⟨v', keeps, what⟩

theorem advance_start (h : l.Keeps k v) {c : Command} (hw : c.worker.key = k)
    (next : Reply → Plan) :
    ∃ l', (start c.worker (operationOf c) (announced c).phase (announced c).operation.description
        (.actuate c next)).advance (surroundings tell cache) l = (.actuate c next, l') ∧
      Comes cache k v c l' := by
  unfold start
  split
  · rename_i retry
    exact ⟨l, rfl, v, h, .inl ⟨rfl, .inl retry⟩⟩
  · rename_i fresh
    rw [hw]
    obtain ⟨l', v', reached, keeps, readings, what⟩ :=
      advance_record tell cache (h.read (l.readings + 1))
        { announced c with operation.time := tell l.readings } (.actuate c next)
    refine ⟨l', reached, v', keeps, ?_⟩
    rw [readings]
    -- The records compare without the time at which the operation began.
    rcases what with ⟨known, same⟩ | ⟨unknown, shows_⟩
    · exact .inl ⟨same, .inr known⟩
    · refine .inr ⟨shows_, ?_⟩
      rintro (retry | known)
      · exact fresh retry
      · exact unknown known

/-- What comes before a call. -/
theorem advance_prepare (h : l.Keeps k v) {c : Command} (hw : c.worker.key = k)
    (next : Reply → Plan) :
    ∃ l', (prepare c (.actuate c next)).advance (surroundings tell cache) l =
        (.actuate c next, l') ∧ Comes cache k v c l' := by
  unfold prepare
  split
  · obtain ⟨l₁, v₁, finalized, keeps, status⟩ := advance_ensureFinalizer tell cache h hw _
    obtain ⟨l', reached, comes⟩ := advance_start tell cache keeps hw next
    exact ⟨l', finalized.trans reached, comes.of_status status⟩
  · exact advance_start tell cache h hw next

/-! ### The answer -/

/-- What a record shows afterwards. -/
theorem shows_recorded {s : OperationStatus} {known : Prop} {t t' : Worker.Status}
    (h : known ∧ t' = t ∨ ¬ known ∧ t'.Shows s) : t'.Shows s ↔ ¬ known ∨ t.Shows s := by
  rcases h with ⟨known, rfl⟩ | ⟨unknown, shows_⟩
  · exact ⟨.inr, fun h => h.resolve_left (not_not_intro known)⟩
  · exact ⟨fun _ => .inl unknown, fun _ => shows_⟩

theorem advance_fail (h : l.Keeps k v) (c : Command) (e : ActuatorError) :
    ∃ l' v', (fail k (operationOf c) e).advance (surroundings tell cache) l =
        (.done (verdict (.error e)), l') ∧ l'.Keeps k v' ∧
      (v'.status.Shows (outcome c (.error e)) ↔
        ¬ Known (cache l'.readings) k (outcome c (.error e)) ∨
          v.status.Shows (outcome c (.error e))) := by
  obtain ⟨l', v', ended, keeps, readings, what⟩ :=
    advance_record tell cache (h.read (l.readings + 1 + 1))
      (stamped (outcome c (.error e)) (tell l.readings) (tell (l.readings + 1)))
      (.done (verdict (.error e)))
  refine ⟨l', v', ended, keeps, ?_⟩
  -- The records compare without the times at which the operation and its error were noted.
  have same (t : Worker.Status) := differs_restamp t (outcome c (.error e)) e.message
    e.isRetryable (tell (l.readings + 1)) default
  have known_iff : Known (cache (l.readings + 1 + 1)) k
      (stamped (outcome c (.error e)) (tell l.readings) (tell (l.readings + 1))) ↔
        Known (cache (l.readings + 1 + 1)) k (outcome c (.error e)) :=
    exists_congr fun u => and_congr_right fun _ => Eq.congr_left (same u.status)
  rw [readings, ← known_iff]
  exact shows_recorded what

/-- Once the machines are handed over the finalizer is taken off, and the status stays. -/
theorem advance_release (h : l.Keeps k v) :
    ∃ l', (release k).advance (surroundings tell cache) l = (.done (.ok .done), l') ∧
      l'.readings = l.readings ∧
      ∀ v', l'.api.workers.get? k = some v' → v'.status = v.status := by
  have landed : (l.api.write (.removeFinalizer k finalizer)).1 = .ok () :=
    (Api.outcome_write (w := .removeFinalizer k finalizer) h.stored (h.keyed _ _ h.stored)).1
  refine ⟨{ l with api := (l.api.write (.removeFinalizer k finalizer)).2 }, ?_, rfl,
    fun v' found => ?_⟩
  · show (Plan.unlessError _ (l.api.write (.removeFinalizer k finalizer)).1).advance _ _ = _
    rw [landed]
    rfl
  · obtain ⟨old, before, what⟩ :=
      Api.found_write (x := .removeFinalizer k finalizer) h.keyed found
    rw [h.eq before] at what
    rcases what with rfl | ⟨n, rfl⟩
    · rfl
    · rfl

/-- **The answer to a call that deletes nothing ends the attempt**, and the API shows the outcome
unless the cache shows it already and the API does not. -/
theorem advance_conclude (h : l.Keeps k v) {c : Command} (hw : c.worker.key = k)
    (other : c.call ≠ .delete) (r : Reply) :
    ∃ l', (conclude c r).advance (surroundings tell cache) l = (.done (verdict r), l') ∧
      (c.call ≠ .migrate → (l'.api.workers.get? k).isSome = true) ∧
      ∀ v', l'.api.workers.get? k = some v' →
        (v'.status.Shows (outcome c r) ↔
          ¬ Known (cache l'.readings) k (outcome c r) ∨ v.status.Shows (outcome c r)) := by
  subst hw
  cases r with
  | error e =>
    obtain ⟨l', v', ended, keeps, shows_⟩ := advance_fail tell cache h c e
    refine ⟨l', ended, fun _ => by rw [keeps.stored]; rfl, fun v'' found => ?_⟩
    rw [keeps.eq found]
    exact shows_
  | ok data =>
    obtain ⟨l', v', recorded, keeps, readings, what⟩ :=
      advance_record tell cache (h.read (l.readings + 1))
        { outcome c (.ok data) with operation.time := tell l.readings }
        (if c.call = .migrate then release c.worker.key else .done (.ok .done))
    have begun : (conclude c (.ok data)).advance (surroundings tell cache) l =
        (if c.call = .migrate then release c.worker.key else .done (.ok .done) : Plan).advance
          (surroundings tell cache) l' := by
      rw [conclude, if_neg other]
      exact recorded
    have shown := shows_recorded what
    by_cases migrate : c.call = .migrate
    · obtain ⟨l₂, ended, readings₂, status⟩ := advance_release tell cache keeps
      refine ⟨l₂, ?_, fun stays => absurd migrate stays, fun v'' found => ?_⟩
      · rw [begun, if_pos migrate]
        exact ended
      · rw [status v'' found, readings₂, readings]
        exact shown
    · refine ⟨l', ?_, fun _ => by rw [keeps.stored]; rfl, fun v'' found => ?_⟩
      · rw [begun, if_neg migrate]
        rfl
      · rw [keeps.eq found, readings]
        exact shown

/-! ### The attempt -/

/-- An attempt that comes to a call. -/
theorem comes_of_plan (h : l.Keeps k v) (cached : (cache l.readings).workers.get? k = some w)
    (hw : w.key = k) {c : Command} {next : Reply → Plan} {l' : Lag}
    (reached : (plan k).advance (surroundings tell cache) l = (.actuate c next, l')) :
    c.worker = w ∧ due w = some c.call ∧ next = conclude c ∧ Comes cache k v c l' := by
  have attends : (attend k w).advance (surroundings tell cache) l = (.actuate c next, l') := by
    simp only [plan_eq, Plan.advance, surroundings, cached] at reached
    exact reached
  obtain ⟨rfl, hd, rfl⟩ := (leads_attend hw).call attends
  refine ⟨rfl, hd, rfl, ?_⟩
  simp only [attend, Plan.advance, surroundings] at attends
  split at attends
  · cases attends
  · rename_i cluster _
    split at attends
    · cases attends
    · obtain ⟨l₁, v₁, consumed, keeps, status⟩ :=
        advance_consumeRequest tell cache h c.worker (operate c.worker cluster)
      obtain ⟨l₂, prepared, comes⟩ := advance_prepare tell cache keeps
        (c := ⟨c.call, c.worker, cluster⟩) hw (conclude ⟨c.call, c.worker, cluster⟩)
      have attends : (operate c.worker cluster).advance (surroundings tell cache) l₁ =
          (.actuate c (conclude c), l') := consumed.symm.trans attends
      rw [operate_of_due hd, perform, prepared] at attends
      obtain ⟨stop, rfl⟩ := Prod.mk.inj attends
      exact (Plan.Stop.actuate.inj stop).1 ▸ comes.of_status status

/-- A report that succeeds. -/
theorem shows_state_iff (h : l.Keeps k v)
    (cached : (cache l.readings).workers.get? k = some w) {a : Action} {l' : Lag} (s : WorkerState)
    (aggregated : s = Report.aggregate (Report.dependents (cache l.readings).machineSets k w)
      (Report.dependents (cache l.readings).machines k w))
    (ended : (Report.plan k).advance (surroundings tell cache) l = (.done (.ok a), l')) :
    ∃ v', l'.api.workers.get? k = some v' ∧
      (v'.status.state = some s ↔ w.status.state ≠ some s ∨ v.status.state = some s) := by
  subst aggregated
  simp only [Report.plan, Plan.advance, surroundings, cached] at ended
  split at ended
  · rename_i known
    cases ended
    exact ⟨v, h.stored, fun same => .inr same, fun or => or.resolve_left (not_not_intro known)⟩
  · rename_i unknown
    obtain ⟨l₁, v', written, keeps, -, what⟩ := advance_write tell cache h
      (x := .state k (Report.aggregate (Report.dependents (cache l.readings).machineSets k w)
        (Report.dependents (cache l.readings).machines k w))) rfl (fun _ _ same => by cases same)
      (.done (.ok .done))
    have ended := written.symm.trans ended
    cases ended
    refine ⟨v', keeps.stored, fun _ => .inl unknown, fun _ => ?_⟩
    rcases what with ⟨idle, rfl⟩ | ⟨n, rfl⟩
    · exact Write.idle_state.mp idle
    · rfl

/-- **When the API shows what an attempt came to.** The attempt has the API for itself, which
keeps the worker `v`, and begins with a look at a cache that shows `w`, out of deletion. If it
calls the actuator and is answered, it ends with the verdict on the answer, and then the API
shows the outcome exactly if the last cache that it saw did not, so that it was written; or if
`v` showed it and nothing was announced before the call. A report that succeeds is shown
exactly if the cache did not show it, or `v` did. -/
theorem shown_iff (h : l.Keeps k v) (cached : (cache l.readings).workers.get? k = some w)
    (hw : w.key = k) :
    (w.metadata.isDeleting = false → ∀ (c : Command) (next : Reply → Plan) (l₁ : Lag),
      (plan k).advance (surroundings tell cache) l = (.actuate c next, l₁) → ∀ r : Reply,
        ∃ l₂, (next r).advance (surroundings tell cache) l₁ = (.done (verdict r), l₂) ∧
          (c.call ≠ .migrate → (l₂.api.workers.get? k).isSome = true) ∧
          ∀ v', l₂.api.workers.get? k = some v' →
            (v'.status.Shows (outcome c r) ↔ ¬ Known (cache l₂.readings) k (outcome c r) ∨
              v.status.Shows (outcome c r) ∧ (isRetry w.status (operationOf c) = true ∨
                Known (cache l₁.readings) k (announced c)))) ∧
      ∀ (a : Action) (l' : Lag) (s : WorkerState),
        s = Report.aggregate (Report.dependents (cache l.readings).machineSets k w)
          (Report.dependents (cache l.readings).machines k w) →
        (Report.plan k).advance (surroundings tell cache) l = (.done (.ok a), l') →
          ∃ v', l'.api.workers.get? k = some v' ∧
            (v'.status.state = some s ↔ w.status.state ≠ some s ∨ v.status.state = some s) := by
  refine ⟨fun present c next l₁ reached r => ?_,
    fun a l' s => shows_state_iff tell cache h cached s⟩
  obtain ⟨rfl, hd, rfl, v₁, keeps, before⟩ := comes_of_plan tell cache h cached hw reached
  have other : c.call ≠ .delete := by
    intro delete
    rw [delete, delete_due_iff, present] at hd
    exact Bool.false_ne_true hd.1
  obtain ⟨l₂, ended, stays, shows_⟩ := advance_conclude tell cache keeps hw other r
  refine ⟨l₂, ended, stays, fun v' found => (shows_ v' found).trans (or_congr_right ?_)⟩
  rcases before with ⟨same, quiet⟩ | ⟨announced_, loud⟩
  · rw [same]
    exact ⟨fun shown => ⟨shown, quiet⟩, And.left⟩
  · exact ⟨fun shown => absurd shown (not_shows_outcome announced_),
      fun quiet => absurd quiet.2 loud⟩

/-! ### A record that gets lost -/

/-- A worker that was reconciled. -/
def reconciled : Worker :=
  { Trial.Fixture.withFinalizer finalizer (Trial.Fixture.worker "tenant" "pool" default) with
    status :=
      { phase := some .ready
        lastOperation :=
          some ⟨.reconcile, .succeeded, "Worker has been successfully reconciled", default⟩
        lastError := none
        observedGeneration := 1
        providerStatus := none
        state := none } }

/-- The worker in a healthy cluster, after its user has labelled it. -/
def labelled : Lag :=
  let a := (Site.founded reconciled).api
  ⟨{ a with workers := (a.workers.modify ⟨"tenant", "pool"⟩ fun w =>
      { w with metadata.labels := w.metadata.labels.insert "team" "blue" }).2 }, 0⟩

/-- The surroundings of an attempt that sees the worker as it was before the label. -/
def outdated : Surroundings Lag :=
  surroundings (fun _ => default) fun _ => (Site.founded reconciled).api.caches

theorem keeps_labelled :
    labelled.Keeps ⟨"tenant", "pool"⟩ ((labelled.api.workers.get? ⟨"tenant", "pool"⟩).get rfl) where
  keyed := (Tracker.keyed_empty.create default reconciled).modify _ _
  stored := (Option.some_get _).symm
  stays := by decide

/-- An attempt fails for now, and a report finds no machines: both are shown, since the cache
shows neither. -/
theorem shown_iff_failed :
    (∃ (c : Command) (next : Reply → Plan) (l₁ l₂ : Lag) (v : Worker),
      (plan ⟨"tenant", "pool"⟩).advance outdated labelled = (.actuate c next, l₁) ∧
      (next (.error (.retryable "busy"))).advance outdated l₁ =
        (.done (verdict (.error (.retryable "busy"))), l₂) ∧
      l₂.api.workers.get? ⟨"tenant", "pool"⟩ = some v ∧
      v.status.Shows (outcome c (.error (.retryable "busy")))) ∧
    ∃ (l' : Lag) (v : Worker),
      (Report.plan ⟨"tenant", "pool"⟩).advance outdated labelled = (.done (.ok .done), l') ∧
      l'.api.workers.get? ⟨"tenant", "pool"⟩ = some v ∧
      v.status.state = some (Report.aggregate [] []) := by
  obtain ⟨records, reports⟩ := shown_iff (fun _ => default)
    (fun _ => (Site.founded reconciled).api.caches) keeps_labelled rfl rfl
  constructor
  · have reached : ∃ c next l₁, (plan ⟨"tenant", "pool"⟩).advance outdated labelled =
        (.actuate c next, l₁) ∧ c.call = .reconcile := ⟨_, _, _, rfl, rfl⟩
    obtain ⟨c, next, l₁, reached, call⟩ := reached
    obtain ⟨l₂, ended, stays, shows_⟩ :=
      records rfl c next l₁ reached (.error (.retryable "busy"))
    obtain ⟨v, found⟩ := Option.isSome_iff_exists.mp (stays (by rw [call]; nofun))
    refine ⟨c, next, l₁, l₂, v, reached, ended, found, (shows_ v found).mpr (.inl ?_)⟩
    rintro ⟨u, cached, same⟩
    obtain rfl := Option.some.inj cached
    cases same
  · have ended : ∃ l', (Report.plan ⟨"tenant", "pool"⟩).advance outdated labelled =
        (.done (.ok .done), l') := ⟨_, rfl⟩
    obtain ⟨l', ended⟩ := ended
    obtain ⟨v, found, shows_⟩ := reports .done l' (Report.aggregate [] []) rfl ended
    exact ⟨l', v, ended, found, shows_.mpr (.inl (by decide))⟩

/-- An attempt puts the operation on record as processing, reconciles the worker, and ends
well. It leaves the record as it is, since the cache shows the outcome already. -/
theorem outcome_lost :
    ∃ (w v v' : Worker) (c : Command) (next : Reply → Plan) (l₁ l₂ : Lag),
      (Site.founded reconciled).api.workers.get? ⟨"tenant", "pool"⟩ = some w ∧
      labelled.api.workers.get? ⟨"tenant", "pool"⟩ = some v ∧
      (w.metadata.uid = v.metadata.uid ∧ w.metadata.created = v.metadata.created ∧
        w.metadata.resourceVersion < v.metadata.resourceVersion) ∧
      (w.metadata.isDeleting = false ∧ w.isMigrated = false) ∧
      (plan ⟨"tenant", "pool"⟩).advance outdated labelled = (.actuate c next, l₁) ∧
      (next (.ok none)).advance outdated l₁ = (.done (.ok .done), l₂) ∧
      l₂.api.workers.get? ⟨"tenant", "pool"⟩ = some v' ∧
      ¬ v'.status.Shows (outcome c (.ok none)) ∧
      v'.status.lastOperation.map LastOperation.gist =
        some (.reconcile, .processing, "Reconciling the worker") :=
  ⟨_, _, _, _, _, _, _, rfl, rfl, ⟨rfl, rfl, by decide⟩, ⟨rfl, rfl⟩, rfl, rfl, rfl, by decide, rfl⟩

end Lag

end PoolControl
