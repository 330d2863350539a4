import PoolControl.Loop.Idle
import PoolControl.Loop.Provision

/-! The shape of an operation.

The operations differ in what they call, in what they put on record and in what they make of
the answer, but not in how they go about it: an attempt prepares the call that is due, makes
it and concludes from the answer (`operate_eq`). So what holds of every operation can be told
once for `prepare` and once for `conclude`.

`Plan.LeadsTo` speaks of a plan up to its call, whatever it is answered: which writes it may
come to, and which call with what follows it. `leads_attend` says so of an attempt that has
seen its worker, and `only_conclude` which writes may follow the call. Most of what is said
elsewhere of all the writes or calls of an attempt is read off these two. -/
namespace PoolControl

/-- Whether the answer to a call lets go of the machines: they are gone, or handed over. -/
def releases (c : Command) : Reply → Bool
  | .ok _ => c.call = .delete || c.call = .migrate
  | .error _ => false

/-! ### What plans promise -/

namespace Plan

/-- Before its call a plan only makes writes of `W`, and its call and what follows are `Q`. -/
def LeadsTo (W : Write → Prop) (Q : Command → (Reply → Plan) → Prop) : Plan → Prop
  | .done _ => True
  | .look next => ∀ caches, LeadsTo W Q (next caches)
  | .clock next => ∀ now, LeadsTo W Q (next now)
  | .write x next => W x ∧ ∀ r, LeadsTo W Q (next r)
  | .actuate c next => Q c next

/-- Whether every write that a plan may come to has a property, whatever its steps are
answered. -/
def Only (P : Write → Prop) : Plan → Prop
  | .done _ => True
  | .look next => ∀ caches, Only P (next caches)
  | .clock next => ∀ now, Only P (next now)
  | .write w next => P w ∧ ∀ r, Only P (next r)
  | .actuate _ next => ∀ r, Only P (next r)

/-- A plan calls the actuator at most `n` times, whatever it is answered. -/
def CallsAtMost : Nat → Plan → Prop
  | _, .done _ => True
  | n, .look next => ∀ caches, CallsAtMost n (next caches)
  | n, .clock next => ∀ now, CallsAtMost n (next now)
  | n, .write _ next => ∀ r, CallsAtMost n (next r)
  | 0, .actuate _ _ => False
  | n + 1, .actuate _ next => ∀ r, CallsAtMost n (next r)

variable {W W' : Write → Prop} {Q Q' : Command → (Reply → Plan) → Prop} {p next : Plan} {n : Nat}

theorem LeadsTo.imp (h : p.LeadsTo W Q) (hW : ∀ x, W x → W' x)
    (hQ : ∀ c next, Q c next → Q' c next) : p.LeadsTo W' Q' := by
  induction p with
  | done r => trivial
  | look next ih => exact fun caches => ih caches (h caches)
  | clock next ih => exact fun now => ih now (h now)
  | write x next ih => exact ⟨hW x h.1, fun r => ih r (h.2 r)⟩
  | actuate c next => exact hQ c next h

/-- What a plan promises of its call holds when it comes to it. -/
theorem LeadsTo.call {σ : Type} {env : Surroundings σ} {s s' : σ} {c : Command}
    {next : Reply → Plan} (h : p.LeadsTo W Q) (reached : p.advance env s = (.actuate c next, s')) :
    Q c next := by
  induction p generalizing s with
  | done r => cases reached
  | look next ih => exact ih _ (h _) reached
  | clock next ih => exact ih _ (h _) reached
  | write x next ih => exact ih _ (h.2 _) reached
  | actuate c next =>
    cases reached
    exact h

/-- The writes of a plan are those before its call and those that follow it. -/
theorem LeadsTo.only (h : p.LeadsTo W fun _ next => ∀ r, (next r).Only W) : p.Only W := by
  induction p with
  | done r => trivial
  | look next ih => exact fun caches => ih caches (h caches)
  | clock next ih => exact fun now => ih now (h now)
  | write x next ih => exact ⟨h.1, fun r => ih r (h.2 r)⟩
  | actuate c next => exact h

/-- A plan that makes no call after its first makes one at most. -/
theorem LeadsTo.callsAtMost (h : p.LeadsTo W fun _ next => ∀ r, (next r).CallsAtMost 0) :
    p.CallsAtMost 1 := by
  induction p with
  | done r => trivial
  | look next ih => exact fun caches => ih caches (h caches)
  | clock next ih => exact fun now => ih now (h now)
  | write x next ih => exact fun r => ih r (h.2 r)
  | actuate c next => exact h

/-- A plan that makes no call. -/
theorem Only.leads (h : p.Only W) (quiet : p.CallsAtMost 0) : p.LeadsTo W Q := by
  induction p with
  | done r => trivial
  | look next ih => exact fun caches => ih caches (h caches) (quiet caches)
  | clock next ih => exact fun now => ih now (h now) (quiet now)
  | write x next ih => exact ⟨h.1, fun r => ih r (h.2 r) (quiet r)⟩
  | actuate c next => exact quiet.elim

theorem leads_write {x : Write} (hx : W x) (h : next.LeadsTo W Q) :
    (write x (unlessError next)).LeadsTo W Q := by
  refine ⟨hx, fun r => ?_⟩
  cases r with
  | ok => exact h
  | error => trivial

theorem only_write {x : Write} (hx : W x) (h : next.Only W) :
    (write x (unlessError next)).Only W := by
  refine ⟨hx, fun r => ?_⟩
  cases r with
  | ok => exact h
  | error => trivial

theorem callsAtMost_done (r : Result) : (done r).CallsAtMost n := trivial

theorem callsAtMost_write (h : next.CallsAtMost n) (x : Write) :
    (write x (unlessError next)).CallsAtMost n := by
  rintro (e | -)
  · trivial
  · exact h

end Plan

namespace Provision

variable {k : Key} {w : Worker} {c : Command} {r : Reply} {next : Plan} {n : Nat}

/-! ### What is due -/

/-- The call of the actuator that a worker is due for. -/
def due (w : Worker) : Option Call :=
  if w.metadata.isDeleting then if w.metadata.hasFinalizer finalizer then some .delete else none
  else match w.request? with
    | some .migrate => some .migrate
    | some .restore => some .restore
    | _ => if w.isMigrated then none else some .reconcile

/-- Only workers in deletion are torn down, and only with the finalizer. -/
theorem due_of_deleting (deleting : w.metadata.isDeleting = true) :
    due w = if w.metadata.hasFinalizer finalizer then some .delete else none :=
  if_pos deleting

theorem delete_due_iff :
    due w = some .delete ↔
      w.metadata.isDeleting = true ∧ w.metadata.hasFinalizer finalizer = true := by
  unfold due
  by_cases deleting : w.metadata.isDeleting = true
  · rw [if_pos deleting]
    simp [deleting]
  · rw [if_neg deleting]
    refine iff_of_false ?_ fun h => deleting h.1
    rcases w.request? with _ | _ | _ | _ <;> cases w.isMigrated <;> simp

/-- Only a worker that is neither in deletion nor handed over is reconciled. -/
theorem here_of_due (h : due w = some .reconcile) :
    w.metadata.isDeleting = false ∧ w.isMigrated = false := by
  unfold due at h
  by_cases deleting : w.metadata.isDeleting = true
  · rw [if_pos deleting] at h
    split at h <;> cases h
  · rw [if_neg deleting] at h
    refine ⟨eq_false_of_ne_true deleting, eq_false_of_ne_true fun away => ?_⟩
    rcases hr : w.request? with _ | _ | _ | _ <;> simp [hr, away] at h

/-- A worker that is due for nothing is in deletion or was handed over. -/
theorem away_of_not_due (h : due w = none) :
    w.metadata.isDeleting = true ∨ w.isMigrated = true := by
  unfold due at h
  by_cases deleting : w.metadata.isDeleting = true
  · exact .inl deleting
  · rw [if_neg deleting] at h
    refine .inr ((Bool.not_eq_false _).mp fun here => ?_)
    rcases hr : w.request? with _ | _ | _ | _ <;> simp [hr, here] at h

/-! ### What an attempt means to record -/

theorem plainKind_cases (s : Worker.Status) : plainKind s = .create ∨ plainKind s = .reconcile := by
  unfold plainKind
  split
  · exact .inl rfl
  · split
    · exact .inl rfl
    · exact .inr rfl

/-- The kind of operation that a call is made for. -/
def operationOf (c : Command) : OperationKind :=
  match c.call with
  | .reconcile => plainKind c.worker.status
  | .delete => .delete
  | .migrate => .migrate
  | .restore => .restore

/-- What is put on record before a call. -/
def announced (c : Command) : OperationStatus :=
  { phase := if c.call = .delete then .deleting else .reconciling
    operation :=
      { kind := operationOf c
        state := .processing
        description :=
          match c.call with
          | .reconcile => "Reconciling the worker"
          | .delete => "Deleting the worker"
          | .migrate => "Migrating the worker"
          | .restore => "Restoring the worker"
        time := default }
    error := c.worker.status.lastError
    observedGeneration := none
    providerStatus := none }

/-- What is put on record after the answer to a call that deletes nothing. -/
def outcome (c : Command) : Reply → OperationStatus
  | .ok data =>
    if c.call = .migrate then
      { phase := .pending
        operation := ⟨.migrate, .succeeded, "Worker has been successfully migrated", default⟩
        error := none
        observedGeneration := none
        providerStatus := none }
    else
      { phase := .ready
        operation := ⟨operationOf c, .succeeded, successMessage (operationOf c), default⟩
        error := none
        observedGeneration := some c.worker.metadata.generation
        providerStatus := data }
  | .error e =>
    { phase := .failed
      operation := ⟨operationOf c, if e.isRetryable then .error else .failed, e.message, default⟩
      error := some ⟨e.message, e.isRetryable, default⟩
      observedGeneration := none
      providerStatus := none }

/-- A record of now, with its error noted later. -/
def stamped (s : OperationStatus) (now later : Timestamp) : OperationStatus :=
  { s with
    operation.time := now
    error := s.error.map ({ · with time := later }) }

/-- A success has no error to note. -/
theorem stamped_outcome (c : Command) (data : Option Json) (now later : Timestamp) :
    stamped (outcome c (.ok data)) now later =
      { outcome c (.ok data) with operation.time := now } := by
  unfold stamped outcome
  dsimp only
  split <;> rfl

/-- What an attempt that made a call ends with. -/
def verdict : Reply → Result
  | .ok _ => .ok .done
  | .error e => .error (if e.isRetryable then .retryable e.message else .terminal e.message)

/-! ### Before and after a call -/

/-- What an attempt does before a call. -/
def prepare (c : Command) (next : Plan) : Plan :=
  let begun := start c.worker (operationOf c) (announced c).phase
    (announced c).operation.description next
  if Idle.creates c.call then ensureFinalizer c.worker begun else begun

/-- Takes the finalizer off and ends the attempt. -/
def release (k : Key) : Plan :=
  .write (.removeFinalizer k finalizer) (Plan.unlessError (.done (.ok .done)))

/-- What an attempt makes of the answer to a call. -/
def conclude (c : Command) : Reply → Plan
  | .ok data =>
    if c.call = .delete then release c.worker.key
    else .clock fun now =>
      record c.worker.key { outcome c (.ok data) with operation.time := now }
        (if c.call = .migrate then release c.worker.key else .done (.ok .done))
  | .error e => fail c.worker.key (operationOf c) e

/-- A call with what comes before and after it. -/
def perform (c : Command) : Plan := prepare c (.actuate c (conclude c))

theorem perform_eq {f : Reply → Plan} (ok : ∀ data, f (.ok data) = conclude c (.ok data))
    (error : ∀ e, f (.error e) = fail c.worker.key (operationOf c) e) :
    prepare c (.actuate c f) = perform c := by
  have answers : f = conclude c := by
    funext r
    cases r with
    | ok data => exact ok data
    | error e => exact error e
  rw [answers, perform]

/-- **Every operation is the performance of the call that is due**, if one is. -/
theorem operate_eq (w : Worker) (c : Cluster) :
    operate w c =
      match due w with
      | none => .done (.ok .done)
      | some m => perform ⟨m, w, c⟩ := by
  unfold operate due
  split
  · unfold delete
    split
    · exact perform_eq (c := ⟨.delete, w, c⟩) (fun _ => rfl) fun _ => rfl
    · rfl
  · rcases w.request? with _ | _ | _ | _
    all_goals dsimp only
    · split
      · rfl
      · exact perform_eq (c := ⟨.reconcile, w, c⟩) (fun _ => rfl) fun _ => rfl
    · split
      · rfl
      · exact perform_eq (c := ⟨.reconcile, w, c⟩) (fun _ => rfl) fun _ => rfl
    · exact perform_eq (c := ⟨.migrate, w, c⟩) (fun _ => rfl) fun _ => rfl
    · exact perform_eq (c := ⟨.restore, w, c⟩) (fun _ => rfl) fun _ => rfl

/-- A worker that is due for nothing is left as it is. -/
theorem operate_of_not_due {c : Cluster} (hd : due w = none) : operate w c = .done (.ok .done) := by
  rw [operate_eq, hd]

theorem operate_of_due {c : Cluster} {m : Call} (hd : due w = some m) :
    operate w c = perform ⟨m, w, c⟩ := by
  rw [operate_eq, hd]

/-- The rest of an attempt that has seen its worker. -/
def attend (k : Key) (w : Worker) : Plan :=
  .look fun caches =>
    match caches.clusters.get? (Cluster.keyOf k.ns) with
    | none => .done (.error (.retryable ("cluster " ++ k.ns ++ " not found")))
    | some c => if c.isFailed then .done (.ok .done) else consumeRequest k w (operate w c)

/-- What an attempt does that has looked its worker up. -/
def seen (k : Key) : Option Worker → Plan
  | none => .done (.ok .done)
  | some w => attend k w

/-- An attempt looks its worker up first. -/
theorem plan_eq (k : Key) : plan k = .look fun caches => seen k (caches.workers.get? k) := rfl

/-! ### Writes before a call -/

variable {W : Write → Prop} {Q : Command → (Reply → Plan) → Prop}

theorem leads_record {s : OperationStatus} (hs : W (.operationStatus k s))
    (h : next.LeadsTo W Q) : (record k s next).LeadsTo W Q := by
  intro caches
  dsimp only
  split
  · split
    · exact Plan.leads_write hs h
    · exact h
  · exact Plan.leads_write hs h

theorem leads_prepare
    (hold : Idle.creates c.call = true → W (.addFinalizer c.worker.key finalizer))
    (announce : ∀ now,
      W (.operationStatus c.worker.key { announced c with operation.time := now }))
    (h : next.LeadsTo W Q) : (prepare c next).LeadsTo W Q := by
  have begun : (start c.worker (operationOf c) (announced c).phase
      (announced c).operation.description next).LeadsTo W Q := by
    unfold start
    split
    · exact h
    · exact fun now => leads_record (announce now) h
  unfold prepare
  split
  · rename_i creates
    unfold ensureFinalizer
    split
    · exact begun
    · exact Plan.leads_write (hold creates) begun
  · exact begun

/-- **An attempt that has seen its worker comes to the call that is due**, if to any, and
concludes from the answer. `W` has the writes that it may make on the way. -/
theorem leads_attend_of (consume : w.metadata.request?.isSome = true → W (.clearRequest k))
    (hold : ∀ m, due w = some m → Idle.creates m = true → W (.addFinalizer w.key finalizer))
    (announce : ∀ (c : Command) now, c.worker = w → due w = some c.call →
      W (.operationStatus w.key { announced c with operation.time := now })) :
    (attend k w).LeadsTo W fun c next =>
      c.worker = w ∧ due w = some c.call ∧ next = conclude c := by
  intro caches
  dsimp only
  split
  · trivial
  · rename_i c _
    have operates : (operate w c).LeadsTo W fun c next =>
        c.worker = w ∧ due w = some c.call ∧ next = conclude c := by
      cases hd : due w with
      | none =>
        rw [operate_of_not_due hd]
        trivial
      | some m =>
        rw [operate_of_due hd]
        exact leads_prepare (c := ⟨m, w, c⟩) (hold m hd)
          (fun now => announce ⟨m, w, c⟩ now rfl hd) ⟨rfl, rfl, rfl⟩
    split
    · trivial
    · unfold consumeRequest
      split
      · rename_i asked
        exact Plan.leads_write (consume asked) operates
      · exact operates

/-- The writes that an attempt on a worker may make before its call. -/
inductive Prepares (k : Key) (w : Worker) : Write → Prop
  | consume : Prepares k w (.clearRequest k)
  | hold {m : Call} (due : due w = some m) (creates : Idle.creates m = true) :
      Prepares k w (.addFinalizer k finalizer)
  | announce {s : OperationStatus} {m : Call} (due : due w = some m)
      (processing : s.operation.state = .processing) (unseen : s.observedGeneration = none) :
      Prepares k w (.operationStatus k s)

theorem leads_attend (hk : w.key = k) :
    (attend k w).LeadsTo (Prepares k w) fun c next =>
      c.worker = w ∧ due w = some c.call ∧ next = conclude c := by
  subst hk
  exact leads_attend_of (fun _ => .consume) (fun _ hd creates => .hold hd creates)
    fun _ _ _ hd => .announce hd rfl rfl

theorem leads_plan (h : ∀ w, (attend k w).LeadsTo W Q) : (plan k).LeadsTo W Q := by
  rw [plan_eq]
  intro caches
  show (seen k (caches.workers.get? k)).LeadsTo W Q
  cases caches.workers.get? k with
  | none => trivial
  | some w => exact h w

/-! ### Writes after a call -/

theorem only_record {s : OperationStatus} (hs : W (.operationStatus k s)) (h : next.Only W) :
    (record k s next).Only W := by
  intro caches
  dsimp only
  split
  · split
    · exact Plan.only_write hs h
    · exact h
  · exact Plan.only_write hs h

/-- **After the answer an attempt records the outcome and lets go of what is gone or handed
over.** Nothing is recorded of a worker whose machines are gone. -/
theorem only_conclude_of (c : Command) (r : Reply)
    (recorded : (c.call = .delete → releases c r = false) → ∀ now later,
      W (.operationStatus c.worker.key (stamped (outcome c r) now later)))
    (released : releases c r = true → W (.removeFinalizer c.worker.key finalizer)) :
    (conclude c r).Only W := by
  have release_ (h : releases c r = true) : (release c.worker.key).Only W :=
    Plan.only_write (released h) trivial
  cases r with
  | ok data =>
    rw [conclude]
    split
    · rename_i delete
      exact release_ (by rw [releases, delete]; rfl)
    · rename_i other
      intro now
      have noted := recorded (fun delete => absurd delete other) now default
      rw [stamped_outcome] at noted
      refine only_record noted ?_
      split
      · rename_i migrate
        exact release_ (by rw [releases, migrate]; rfl)
      · trivial
  | error e => exact fun now later => only_record (recorded (fun _ => rfl) now later) trivial

/-- The writes that may follow the answer to a call. -/
inductive Settles (c : Command) (r : Reply) : Write → Prop
  | record {s : OperationStatus} (there : c.call = .delete → releases c r = false)
      (kind : s.operation.kind = (outcome c r).operation.kind)
      (state : s.operation.state = (outcome c r).operation.state)
      (seen : s.observedGeneration = (outcome c r).observedGeneration) :
      Settles c r (.operationStatus c.worker.key s)
  | release (released : releases c r = true) :
      Settles c r (.removeFinalizer c.worker.key finalizer)

theorem only_conclude (c : Command) (r : Reply) : (conclude c r).Only (Settles c r) :=
  only_conclude_of c r (fun there _ _ => .record there rfl rfl rfl) .release

/-! ### Calls -/

theorem callsAtMost_record (h : next.CallsAtMost n) (s : OperationStatus) :
    (record k s next).CallsAtMost n := by
  intro caches
  dsimp only
  split
  · split
    · exact Plan.callsAtMost_write h _
    · exact h
  · exact Plan.callsAtMost_write h _

theorem callsAtMost_conclude (c : Command) (r : Reply) : (conclude c r).CallsAtMost 0 := by
  have released : (release c.worker.key).CallsAtMost 0 :=
    Plan.callsAtMost_write (Plan.callsAtMost_done _) _
  cases r with
  | ok data =>
    rw [conclude]
    split
    · exact released
    · refine fun now => callsAtMost_record ?_ _
      split
      · exact released
      · trivial
  | error e => exact fun _ _ => callsAtMost_record (Plan.callsAtMost_done _) _

/-- **An attempt makes at most one call.** -/
theorem callsAtMost_plan (k : Key) : (plan k).CallsAtMost 1 := by
  refine (leads_plan (W := fun _ => True) fun w => ?_).callsAtMost
  refine (leads_attend_of (fun _ => trivial) (fun _ _ _ => trivial)
    fun _ _ _ _ => trivial).imp (fun _ => id) ?_
  rintro c _ ⟨-, -, rfl⟩
  exact callsAtMost_conclude c

end Provision

end PoolControl
