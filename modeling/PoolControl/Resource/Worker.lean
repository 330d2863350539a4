import PoolControl.Resource.Machine

/-! Workers, the resources that controllers act on.

A worker is a set of pools of machines at one backend. Its spec may carry free-form
configuration for the backend, and its status free-form data from it. Two loops share
the status: one records operations, the other the state of the worker's machines. -/
namespace PoolControl

/-! ### The state of a worker's machines -/

structure MachineState where
  phase : MachinePhase
  node : Option String
deriving DecidableEq, Inhabited

/-- A machine set with its machines by name. The pool is missing while only machines of
the set are known. -/
structure MachineSetState where
  pool : Option String
  replicas : Nat
  machines : OrderedMap String MachineState
deriving DecidableEq, Inhabited

/-- The machine sets by name, and how many machines are in each phase. -/
structure WorkerState where
  machineSets : OrderedMap String MachineSetState
  phaseCounts : OrderedMap MachinePhase Nat
deriving DecidableEq, Inhabited

namespace MachineState

def toJson (s : MachineState) : Json :=
  Json.record [("phase", some (Choice.toJson s.phase)), ("node", s.node.map .string)]

def ofJson (j : Json) : Option MachineState := do
  let f ← j.fields ["phase", "node"]
  return {
    phase := ← f.required 0 Choice.ofJson
    node := ← f.optional 1 Json.asString }

end MachineState

namespace MachineSetState

def toJson (s : MachineSetState) : Json :=
  Json.record [("pool", s.pool.map .string), ("replicas", some (Json.ofNat s.replicas)),
    ("machines", some (Json.ofDictionary MachineState.toJson s.machines))]

def ofJson (j : Json) : Option MachineSetState := do
  let f ← j.fields ["pool", "replicas", "machines"]
  return {
    pool := ← f.optional 0 Json.asString
    replicas := ← f.required 1 Json.asNat32
    machines := ← f.withDefault 2 ∅ (Json.asDictionary MachineState.ofJson) }

end MachineSetState

namespace WorkerState

def toJson (s : WorkerState) : Json :=
  .object [("machineSets", Json.ofDictionary MachineSetState.toJson s.machineSets),
    ("phaseCounts", Json.ofMap Choice.name Json.ofNat s.phaseCounts)]

def ofJson (j : Json) : Option WorkerState := do
  let f ← j.fields ["machineSets", "phaseCounts"]
  return {
    machineSets := ← f.withDefault 0 ∅ (Json.asDictionary MachineSetState.ofJson)
    phaseCounts := ← f.withDefault 1 ∅ (Json.asMap Choice.ofName? Json.asNat32) }

/-- The number of machines, as a 32-bit number. -/
def machineCount (s : WorkerState) : Nat := s.phaseCounts.values.foldl (· + ·) 0 % 4294967296

/-- The phases that occur with their counts. -/
def summary (s : WorkerState) : String :=
  if s.phaseCounts.isEmpty then "no machines"
  else ", ".intercalate
    (s.phaseCounts.toList.map fun b => toString b.2 ++ " " ++ Choice.name b.1)

end WorkerState

/-! ### Workers -/

inductive WorkerPhase
  | pending
  | reconciling
  | ready
  | deleting
  | failed
deriving DecidableEq, Inhabited

instance : Choice WorkerPhase where
  all := [.pending, .reconciling, .ready, .deleting, .failed]
  name
    | .pending => "Pending"
    | .reconciling => "Reconciling"
    | .ready => "Ready"
    | .deleting => "Deleting"
    | .failed => "Failed"
  ofName?
    | "Pending" => some .pending
    | "Reconciling" => some .reconciling
    | "Ready" => some .ready
    | "Deleting" => some .deleting
    | "Failed" => some .failed
    | _ => none
  ofName?_name x := by cases x <;> rfl
  name_of_ofName? h := by grind

structure Pool where
  name : String
  machineType : String
  minimum : Nat
  maximum : Nat
  zones : List String
deriving DecidableEq, Inhabited

structure Worker.Spec where
  backend : String
  region : String
  pools : List Pool
  providerConfig : Option Json
deriving DecidableEq, Inhabited

structure Worker.Status where
  phase : Option WorkerPhase
  lastOperation : Option LastOperation
  lastError : Option LastError
  observedGeneration : Int
  providerStatus : Option Json
  state : Option WorkerState
deriving DecidableEq, Inhabited

structure Worker where
  metadata : Metadata
  spec : Worker.Spec
  status : Worker.Status
deriving DecidableEq, Inhabited

namespace Pool

def toJson (p : Pool) : Json :=
  .object [("name", .string p.name), ("machineType", .string p.machineType),
    ("minimum", Json.ofNat p.minimum), ("maximum", Json.ofNat p.maximum),
    ("zones", Json.ofList .string p.zones)]

def ofJson (j : Json) : Option Pool := do
  let f ← j.fields ["name", "machineType", "minimum", "maximum", "zones"]
  return {
    name := ← f.required 0 Json.asString
    machineType := ← f.required 1 Json.asString
    minimum := ← f.required 2 Json.asNat32
    maximum := ← f.required 3 Json.asNat32
    zones := ← f.withDefault 4 [] (Json.asList Json.asString) }

end Pool

namespace Worker

def Spec.toJson (s : Spec) : Json :=
  Json.record [("type", some (.string s.backend)), ("region", some (.string s.region)),
    ("pools", some (Json.ofList Pool.toJson s.pools)), ("providerConfig", s.providerConfig)]

def Spec.ofJson (j : Json) : Option Spec := do
  let f ← j.fields ["type", "region", "pools", "providerConfig"]
  return {
    backend := ← f.required 0 Json.asString
    region := ← f.required 1 Json.asString
    pools := ← f.withDefault 2 [] (Json.asList Pool.ofJson)
    providerConfig := ← f.optional 3 Json.settle }

def Status.toJson (s : Status) : Json :=
  Json.record [("phase", s.phase.map Choice.toJson),
    ("lastOperation", s.lastOperation.map LastOperation.toJson),
    ("lastError", s.lastError.map LastError.toJson),
    ("observedGeneration", some (.int s.observedGeneration)),
    ("providerStatus", s.providerStatus), ("state", s.state.map WorkerState.toJson)]

def Status.ofJson (j : Json) : Option Status := do
  let f ← j.fields ["phase", "lastOperation", "lastError", "observedGeneration",
    "providerStatus", "state"]
  return {
    phase := ← f.optional 0 Choice.ofJson
    lastOperation := ← f.optional 1 LastOperation.ofJson
    lastError := ← f.optional 2 LastError.ofJson
    observedGeneration := ← f.withDefault 3 0 Json.asInt64
    providerStatus := ← f.optional 4 Json.settle
    state := ← f.optional 5 WorkerState.ofJson }

def toJson (w : Worker) : Json :=
  .object [("metadata", w.metadata.toJson), ("spec", w.spec.toJson),
    ("status", w.status.toJson)]

def ofJson (j : Json) : Option Worker := do
  let f ← j.fields ["metadata", "spec", "status"]
  return {
    metadata := ← f.required 0 Metadata.ofJson
    spec := ← f.required 1 Spec.ofJson
    status := ← f.withDefault 2 default Status.ofJson }

def key (w : Worker) : Key := w.metadata.key

/-- The requested operation. A request that is not known counts as `reconcile`. -/
def request? (w : Worker) : Option Request :=
  w.metadata.request?.map fun s => (Choice.ofName? s).getD .reconcile

/-- Whether the worker was handed over to another instance. -/
def isMigrated (w : Worker) : Bool :=
  match w.status.lastOperation with
  | some o => o.kind = .migrate && o.succeeded
  | none => false

/-- The worker with the negative zeros of its free-form data made positive. -/
def unsigned (w : Worker) : Worker :=
  { w with
    spec := { w.spec with providerConfig := w.spec.providerConfig.map Json.unsigned }
    status := { w.status with providerStatus := w.status.providerStatus.map Json.unsigned } }

end Worker

end PoolControl
