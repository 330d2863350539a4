import PoolControl.Resource.Basic

/-! Objects to start a trial from.

Each is valid and healthy, and a few steps change only what a trial is about. The caller
names the uids and the time. -/
namespace PoolControl.Trial.Fixture

/-! ### Workers -/

/-- A new worker at the backend `local`, without pools. -/
def worker (ns name : String) (uid : ObjectUid) : Worker :=
  { metadata := .new ns name uid, spec := ⟨"local", "", [], none⟩, status := default }

/-- Adds a pool without zones. -/
def withPool (name : String) (minimum maximum : Nat) (w : Worker) : Worker :=
  let pool : Pool := ⟨name, "m5.large", minimum, maximum, []⟩
  { w with spec := { w.spec with pools := w.spec.pools ++ [pool] } }

/-- Requests an operation. -/
def requesting (operation : String) (w : Worker) : Worker :=
  { w with
    metadata :=
      { w.metadata with
        annotations := w.metadata.annotations.insert Metadata.requestName operation } }

/-- Adds a finalizer. -/
def withFinalizer (f : String) (w : Worker) : Worker :=
  { w with metadata := { w.metadata with finalizers := w.metadata.finalizers ++ [f] } }

/-- Marks a worker for deletion. -/
def deleting (now : Timestamp) (w : Worker) : Worker :=
  { w with metadata := { w.metadata with deleted := some now } }

/-- Records a last operation. -/
def withOperation (kind : OperationKind) (state : OperationState) (now : Timestamp)
    (w : Worker) : Worker :=
  { w with status := { w.status with lastOperation := some ⟨kind, state, "fixture", now⟩ } }

/-- Records that the spec as it is was reconciled. -/
def reconciled (now : Timestamp) (w : Worker) : Worker :=
  let w := withOperation .reconcile .succeeded now w
  { w with status := { w.status with observedGeneration := w.metadata.generation } }

/-! ### Others -/

/-- A machine set of a worker. -/
def machineSet (owner : Worker) (name : String) (uid : ObjectUid) (pool : String)
    (replicas : Nat) : MachineSet :=
  Resource.ownedBy owner
    { metadata := .new owner.metadata.ns name uid, spec := ⟨pool, replicas⟩, status := default }

/-- A machine of a worker in a machine set. -/
def machine (owner : Worker) (set name : String) (uid : ObjectUid) (phase : MachinePhase)
    (node : Option String) : Machine :=
  Resource.ownedBy owner
    { metadata := .new owner.metadata.ns name uid, spec := ⟨set, none⟩, status := ⟨phase, node⟩ }

/-- The cluster of a namespace. -/
def cluster (ns : String) (uid : ObjectUid) (phase : ClusterPhase) : Cluster :=
  { metadata := .new "" ns uid, status := ⟨phase⟩ }

end PoolControl.Trial.Fixture
