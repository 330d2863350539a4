import PoolControl.Api.Tracker

/-! The API and the writes that controllers make.

The API has one tracker per kind. Controllers change workers only through a few narrow
writes, each of which touches the fields it is named for: the record of operations, the
state of the machines, one finalizer, or the request annotation. So the loop that runs
operations and the loop that reports state cannot undo each other's work. -/
namespace PoolControl

structure Api where
  workers : Tracker Worker
  machineSets : Tracker MachineSet
  machines : Tracker Machine
  clusters : Tracker Cluster
deriving Inhabited

namespace Api

def empty : Api := ⟨∅, ∅, ∅, ∅⟩

/-- The stores of the trackers. -/
def caches (a : Api) : Caches :=
  ⟨a.workers.store, a.machineSets.store, a.machines.store, a.clusters.store⟩

end Api

/-- A kind of resource with a tracker in the API. -/
class Tracked (K : Type) extends Cached K where
  tracker : Api → Tracker K
  withTracker : Api → Tracker K → Api
  tracker_withTracker : ∀ a t, tracker (withTracker a t) = t

instance : Tracked Worker := ⟨Api.workers, fun a t => { a with workers := t }, fun _ _ => rfl⟩

instance : Tracked MachineSet :=
  ⟨Api.machineSets, fun a t => { a with machineSets := t }, fun _ _ => rfl⟩

instance : Tracked Machine := ⟨Api.machines, fun a t => { a with machines := t }, fun _ _ => rfl⟩

instance : Tracked Cluster := ⟨Api.clusters, fun a t => { a with clusters := t }, fun _ _ => rfl⟩

/-- A new record of the last operation. -/
structure OperationStatus where
  phase : WorkerPhase
  operation : LastOperation
  /-- The error, or none to clear the recorded one. -/
  error : Option LastError
  /-- Left as it is if absent. -/
  observedGeneration : Option Int
  /-- Left as it is if absent. -/
  providerStatus : Option Json

namespace OperationStatus

/-- Puts a record into the status of a worker. -/
def apply (s : OperationStatus) (old : Worker.Status) : Worker.Status :=
  { old with
    phase := some s.phase
    lastOperation := some s.operation
    lastError := s.error
    observedGeneration := s.observedGeneration.getD old.observedGeneration
    providerStatus := s.providerStatus.or old.providerStatus }

end OperationStatus

/-- A write to a worker. -/
inductive Write
  | operationStatus (key : Key) (status : OperationStatus)
  | state (key : Key) (state : WorkerState)
  | addFinalizer (key : Key) (finalizer : String)
  | removeFinalizer (key : Key) (finalizer : String)
  | clearRequest (key : Key)

namespace Write

/-- The worker that a write is for. -/
def key : Write → Key
  | .operationStatus k _ => k
  | .state k _ => k
  | .addFinalizer k _ => k
  | .removeFinalizer k _ => k
  | .clearRequest k => k

/-- What a write makes of the worker. -/
def change : Write → Worker → Worker
  | .operationStatus _ s, w => { w with status := s.apply w.status }
  | .state _ s, w => { w with status := { w.status with state := some s } }
  | .addFinalizer _ f, w =>
    if w.metadata.hasFinalizer f then w
    else { w with metadata := { w.metadata with finalizers := w.metadata.finalizers ++ [f] } }
  | .removeFinalizer _ f, w =>
    { w with
      metadata := { w.metadata with finalizers := w.metadata.finalizers.filter (· != f) } }
  | .clearRequest _, w =>
    { w with
      metadata :=
        { w.metadata with annotations := w.metadata.annotations.erase Metadata.requestName } }

end Write

namespace Api

/-- Carries out a write. -/
def write (a : Api) (w : Write) : Except ApiError Unit × Api :=
  match a.workers.modify w.key w.change with
  | (.ok _, t) => (.ok (), { a with workers := t })
  | (.error e, t) => (.error e, { a with workers := t })

end Api

end PoolControl
