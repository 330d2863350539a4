import PoolControl.Resource.Metadata

/-! Machine sets and machines, the resources a worker owns.

A machine set stands for the machines of one pool, a machine for one node in the making
or at work. Machine phases are ordered as they are reported, the good news first. -/
namespace PoolControl

inductive MachinePhase
  | ready
  | provisioning
  | pending
  | terminating
  | failed
  | unknown
deriving DecidableEq

namespace MachinePhase

instance : Inhabited MachinePhase := ⟨.pending⟩

instance : Choice MachinePhase where
  all := [.ready, .provisioning, .pending, .terminating, .failed, .unknown]
  name
    | .ready => "Ready"
    | .provisioning => "Provisioning"
    | .pending => "Pending"
    | .terminating => "Terminating"
    | .failed => "Failed"
    | .unknown => "Unknown"
  ofName?
    | "Ready" => some .ready
    | "Provisioning" => some .provisioning
    | "Pending" => some .pending
    | "Terminating" => some .terminating
    | "Failed" => some .failed
    | "Unknown" => some .unknown
    | _ => none
  ofName?_name x := by cases x <;> rfl
  name_of_ofName? h := by grind

/-- The place in the order of reporting. -/
def rank : MachinePhase → Nat
  | .ready => 0
  | .provisioning => 1
  | .pending => 2
  | .terminating => 3
  | .failed => 4
  | .unknown => 5

instance : Ord MachinePhase := ⟨compareOn rank⟩

instance : Std.TransOrd MachinePhase := inferInstanceAs (Std.TransCmp (compareOn rank))

instance : Std.LawfulEqOrd MachinePhase where
  eq_of_compare {a b} h := by
    cases a <;> cases b <;> first | rfl | exact absurd h (by decide)

/-- Why a text is no phase. -/
def unrecognised (s : String) : String := "unknown machine phase: " ++ s

end MachinePhase

/-! ### Machine sets -/

structure MachineSet.Spec where
  pool : String
  replicas : Nat
deriving DecidableEq, Inhabited

structure MachineSet.Status where
  readyReplicas : Nat
deriving DecidableEq, Inhabited

structure MachineSet where
  metadata : Metadata
  spec : MachineSet.Spec
  status : MachineSet.Status
deriving DecidableEq, Inhabited

namespace MachineSet

def Spec.toJson (s : Spec) : Json :=
  .object [("pool", .string s.pool), ("replicas", Json.ofNat s.replicas)]

def Spec.ofJson (j : Json) : Option Spec := do
  let f ← j.fields ["pool", "replicas"]
  return { pool := ← f.required 0 Json.asString, replicas := ← f.required 1 Json.asNat32 }

def Status.toJson (s : Status) : Json := .object [("readyReplicas", Json.ofNat s.readyReplicas)]

def Status.ofJson (j : Json) : Option Status := do
  let f ← j.fields ["readyReplicas"]
  return { readyReplicas := ← f.withDefault 0 0 Json.asNat32 }

def toJson (s : MachineSet) : Json :=
  .object [("metadata", s.metadata.toJson), ("spec", s.spec.toJson),
    ("status", s.status.toJson)]

def ofJson (j : Json) : Option MachineSet := do
  let f ← j.fields ["metadata", "spec", "status"]
  return {
    metadata := ← f.required 0 Metadata.ofJson
    spec := ← f.required 1 Spec.ofJson
    status := ← f.withDefault 2 default Status.ofJson }

end MachineSet

/-! ### Machines -/

structure Machine.Spec where
  machineSet : String
  providerId : Option String
deriving DecidableEq, Inhabited

structure Machine.Status where
  phase : MachinePhase
  node : Option String
deriving DecidableEq, Inhabited

structure Machine where
  metadata : Metadata
  spec : Machine.Spec
  status : Machine.Status
deriving DecidableEq, Inhabited

namespace Machine

def Spec.toJson (s : Spec) : Json :=
  Json.record [("machineSet", some (.string s.machineSet)),
    ("providerId", s.providerId.map .string)]

def Spec.ofJson (j : Json) : Option Spec := do
  let f ← j.fields ["machineSet", "providerId"]
  return {
    machineSet := ← f.required 0 Json.asString
    providerId := ← f.optional 1 Json.asString }

/-- The node is written even if there is none. -/
def Status.toJson (s : Status) : Json :=
  .object [("phase", Choice.toJson s.phase),
    ("node", match s.node with | some n => .string n | none => .null)]

def Status.ofJson (j : Json) : Option Status := do
  let f ← j.fields ["phase", "node"]
  return {
    phase := ← f.withDefault 0 default Choice.ofJson
    node := ← f.optional 1 Json.asString }

def toJson (m : Machine) : Json :=
  .object [("metadata", m.metadata.toJson), ("spec", m.spec.toJson),
    ("status", m.status.toJson)]

def ofJson (j : Json) : Option Machine := do
  let f ← j.fields ["metadata", "spec", "status"]
  return {
    metadata := ← f.required 0 Metadata.ofJson
    spec := ← f.required 1 Spec.ofJson
    status := ← f.withDefault 2 default Status.ofJson }

end Machine

end PoolControl
