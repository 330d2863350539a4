import PoolControl.Loop.Plan

/-! The provisioning loop.

An attempt brings one worker a step nearer to what its user asked for. It needs the
worker's cluster, and leaves workers of a failed cluster alone. It consumes the request
annotation before anything else, so that its own later writes do not pass for a request.
A worker in deletion is torn down; otherwise the request or else the record decides
between migration, restoration, and plain reconciling, and a migrated worker is left alone.

Before the actuator is called for anything that creates machines the worker carries the
loop's finalizer, and the operation is on record as processing. What the actuator answers
is recorded afterwards. A retry of an operation keeps the record it finds, and a record
that the cache already shows is not written again. -/
namespace PoolControl.Provision

/-- The finalizer of this loop. -/
def finalizer : String := "nodepool.dev/worker"

/-! ### Records -/

/-- Whether an operation of this kind is on record as unfinished, so that doing it again
is a retry. -/
def isRetry (s : Worker.Status) (kind : OperationKind) : Bool :=
  match s.lastOperation with
  | some o => o.kind = kind && (o.state = .processing || o.state = .error)
  | none => false

def sameOperation (current : Option LastOperation) (next : LastOperation) : Bool :=
  match current with
  | some o => o.kind = next.kind && o.state = next.state && o.description = next.description
  | none => false

def sameError (current next : Option LastError) : Bool :=
  match current, next with
  | none, none => true
  | some a, some b => a.description = b.description && a.retryable = b.retryable
  | _, _ => false

def sameProviderStatus (current : Option Json) (next : Json) : Bool :=
  match current with
  | some j => j.same next
  | none => false

/-- Whether writing a record would change more than times. -/
def differs (current : Worker.Status) (next : OperationStatus) : Bool :=
  current.phase ≠ some next.phase || !sameOperation current.lastOperation next.operation ||
    !sameError current.lastError next.error ||
    next.observedGeneration.any (· ≠ current.observedGeneration) ||
    next.providerStatus.any (!sameProviderStatus current.providerStatus ·)

/-- Writes a record unless the cached worker shows it already. -/
def record (k : Key) (s : OperationStatus) (next : Plan) : Plan :=
  .look fun caches =>
    match caches.workers.get? k with
    | some w =>
      if differs w.status s then .write (.operationStatus k s) (Plan.unlessError next) else next
    | none => .write (.operationStatus k s) (Plan.unlessError next)

/-! ### Parts of an operation -/

def ensureFinalizer (w : Worker) (next : Plan) : Plan :=
  if w.metadata.hasFinalizer finalizer then next
  else .write (.addFinalizer w.key finalizer) (Plan.unlessError next)

/-- Records an operation as processing, unless it is a retry. -/
def start (w : Worker) (kind : OperationKind) (phase : WorkerPhase) (description : String)
    (next : Plan) : Plan :=
  if isRetry w.status kind then next
  else .clock fun now =>
    record w.key
      { phase
        operation := ⟨kind, .processing, description, now⟩
        error := w.status.lastError
        observedGeneration := none
        providerStatus := none } next

/-- Records an error of the actuator and ends the attempt with it. -/
def fail (k : Key) (kind : OperationKind) (e : ActuatorError) : Plan :=
  .clock fun now => .clock fun later =>
    record k
      { phase := .failed
        operation := ⟨kind, if e.isRetryable then .error else .failed, e.message, now⟩
        error := some ⟨e.message, e.isRetryable, later⟩
        observedGeneration := none
        providerStatus := none }
      (.done (.error (if e.isRetryable then .retryable e.message else .terminal e.message)))

def successMessage (kind : OperationKind) : String :=
  if kind = .restore then "Worker has been successfully restored"
  else "Worker has been successfully reconciled"

/-- Records what the actuator made of the worker, and ends the attempt. -/
def finish (w : Worker) (kind : OperationKind) : Reply → Plan
  | .ok providerStatus => .clock fun now =>
    record w.key
      { phase := .ready
        operation := ⟨kind, .succeeded, successMessage kind, now⟩
        error := none
        observedGeneration := some w.metadata.generation
        providerStatus }
      (.done (.ok .done))
  | .error e => fail w.key kind e

/-! ### Operations -/

/-- Tears a worker down and lets it go. Without our finalizer there is nothing to do. -/
def delete (w : Worker) (c : Cluster) : Plan :=
  if w.metadata.hasFinalizer finalizer then
    start w .delete .deleting "Deleting the worker" <|
      .actuate ⟨.delete, w, c⟩ fun
        | .ok _ => .write (.removeFinalizer w.key finalizer) (Plan.unlessError (.done (.ok .done)))
        | .error e => fail w.key .delete e
  else .done (.ok .done)

/-- Hands the machines over. They belong elsewhere then, so deletion must not tear them
down: the finalizer goes. -/
def migrate (w : Worker) (c : Cluster) : Plan :=
  start w .migrate .reconciling "Migrating the worker" <|
    .actuate ⟨.migrate, w, c⟩ fun
      | .ok _ => .clock fun now =>
        record w.key
          { phase := .pending
            operation := ⟨.migrate, .succeeded, "Worker has been successfully migrated", now⟩
            error := none
            observedGeneration := none
            providerStatus := none }
          (.write (.removeFinalizer w.key finalizer) (Plan.unlessError (.done (.ok .done))))
      | .error e => fail w.key .migrate e

/-- Takes machines over. -/
def restore (w : Worker) (c : Cluster) : Plan :=
  ensureFinalizer w <|
    start w .restore .reconciling "Restoring the worker" <|
      .actuate ⟨.restore, w, c⟩ (finish w .restore)

/-- A worker whose creation is not on record as complete is created, any other reconciled. -/
def plainKind (s : Worker.Status) : OperationKind :=
  match s.lastOperation with
  | none => .create
  | some o => if o.kind = .create && !o.succeeded then .create else .reconcile

/-- Brings the machines in line with the spec. -/
def plain (w : Worker) (c : Cluster) : Plan :=
  ensureFinalizer w <|
    start w (plainKind w.status) .reconciling "Reconciling the worker" <|
      .actuate ⟨.reconcile, w, c⟩ (finish w (plainKind w.status))

/-- Consumes the request annotation. -/
def consumeRequest (k : Key) (w : Worker) (next : Plan) : Plan :=
  if w.metadata.request?.isSome then .write (.clearRequest k) (Plan.unlessError next) else next

/-- The operation that a worker is due for. -/
def operate (w : Worker) (c : Cluster) : Plan :=
  if w.metadata.isDeleting then delete w c
  else match w.request? with
    | some .migrate => migrate w c
    | some .restore => restore w c
    | _ => if w.isMigrated then .done (.ok .done) else plain w c

/-- An attempt on a key. -/
def plan (k : Key) : Plan :=
  .look fun caches =>
    match caches.workers.get? k with
    | none => .done (.ok .done)
    | some w => .look fun caches =>
      match caches.clusters.get? (Cluster.keyOf k.ns) with
      | none => .done (.error (.retryable ("cluster " ++ k.ns ++ " not found")))
      | some c => if c.isFailed then .done (.ok .done) else consumeRequest k w (operate w c)

end PoolControl.Provision
