import PoolControl.Routing.Dispatch

/-! Which events trigger which loop.

Provisioning is triggered by workers of its backend and, unless any change of a spec
triggers it, by their clusters. The report of the machines' state is triggered by machine
sets and machines only, so no amount of news about machines ever reaches provisioning. -/
namespace PoolControl.Wiring

/-- Worker events for provisioning, which are also the workers a cluster event is for. -/
def workerPredicate (ignoreRequests : Bool) (backend : String) : Predicate :=
  (Predicate.primary ignoreRequests).atBackend backend

/-- Worker events to provisioning. -/
def workers (ignoreRequests : Bool) (backend : String) : Dispatcher Worker :=
  ⟨workerPredicate ignoreRequests backend, .self⟩

/-- Cluster events to provisioning. -/
def clusters (ignoreRequests : Bool) (backend : String) : Dispatcher Cluster :=
  ⟨.clusterChanges, .clusterToWorkers (workerPredicate ignoreRequests backend)⟩

/-- Machine set events to the report. -/
def machineSets (backend : String) : Dispatcher MachineSet :=
  ⟨.machineSetChanges, .dependentToWorker (.hasBackend backend)⟩

/-- Machine events to the report. -/
def machines (backend : String) : Dispatcher Machine :=
  ⟨.machineChanges, .dependentToWorker (.hasBackend backend)⟩

end PoolControl.Wiring
