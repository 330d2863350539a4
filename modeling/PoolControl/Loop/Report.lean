import PoolControl.Loop.Plan

/-! The state loop.

It gathers the machine sets and machines of a worker into the state of the worker and
writes it if it changed. It reads dependents and writes nothing else, and it runs apart
from provisioning so that slow operations do not delay reports. A dependent counts if its
reference names the worker and, where it has a uid, this incarnation of the worker. -/
namespace PoolControl.Report

/-- Whether an object refers to this incarnation of a worker. -/
def refersTo (w : Worker) (m : Metadata) : Bool :=
  (m.ownersOfKind Kind.worker.name).any fun r =>
    r.name == w.metadata.name &&
      (match r.uid with
        | some u => u == w.metadata.uid
        | none => true)

/-- The cached objects of a kind that belong to a worker. -/
def dependents {K : Type} [Resource K] (s : Store K) (k : Key) (w : Worker) : List K :=
  (s.ownedBy ⟨Kind.worker.name, k⟩).filter fun x => refersTo w (Resource.metadata x)

/-- The entry of a machine set by name; a new one knows no pool and no machines. -/
def entry (s : WorkerState) (name : String) : MachineSetState :=
  s.machineSets.getD name ⟨none, 0, ∅⟩

/-- Enters a machine set. -/
def addSet (s : WorkerState) (x : MachineSet) : WorkerState :=
  let name := x.metadata.name
  { s with
    machineSets := s.machineSets.insert name
      { entry s name with pool := some x.spec.pool, replicas := x.spec.replicas } }

/-- Enters a machine under its set and counts it. -/
def addMachine (s : WorkerState) (x : Machine) : WorkerState :=
  let name := x.spec.machineSet
  let e := entry s name
  { machineSets := s.machineSets.insert name
      { e with machines := e.machines.insert x.metadata.name ⟨x.status.phase, x.status.node⟩ }
    phaseCounts :=
      s.phaseCounts.insert x.status.phase (s.phaseCounts.getD x.status.phase 0 + 1) }

/-- The state that machine sets and machines make up. -/
def aggregate (sets : List MachineSet) (machines : List Machine) : WorkerState :=
  machines.foldl addMachine (sets.foldl addSet ⟨∅, ∅⟩)

/-- An attempt on a key. -/
def plan (k : Key) : Plan :=
  .look fun caches =>
    match caches.workers.get? k with
    | none => .done (.ok .done)
    | some w => .look fun caches =>
      let sets := dependents caches.machineSets k w
      .look fun caches =>
        let state := aggregate sets (dependents caches.machines k w)
        if w.status.state = some state then .done (.ok .done)
        else .write (.state k state) (Plan.unlessError (.done (.ok .done)))

end PoolControl.Report
