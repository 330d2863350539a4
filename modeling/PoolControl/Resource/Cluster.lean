import PoolControl.Resource.Metadata

/-! Clusters, one per tenant.

The cluster of a namespace is the object of that name in the empty namespace. While it is
failed nothing is done for the workers of the namespace. -/
namespace PoolControl

inductive ClusterPhase
  | healthy
  | maintenance
  | failed
deriving DecidableEq, Inhabited

instance : Choice ClusterPhase where
  all := [.healthy, .maintenance, .failed]
  name
    | .healthy => "Healthy"
    | .maintenance => "Maintenance"
    | .failed => "Failed"
  ofName?
    | "Healthy" => some .healthy
    | "Maintenance" => some .maintenance
    | "Failed" => some .failed
    | _ => none
  ofName?_name x := by cases x <;> rfl
  name_of_ofName? h := by grind

structure Cluster.Status where
  phase : ClusterPhase
deriving DecidableEq, Inhabited

structure Cluster where
  metadata : Metadata
  status : Cluster.Status
deriving DecidableEq, Inhabited

namespace Cluster

def Status.toJson (s : Status) : Json := .object [("phase", Choice.toJson s.phase)]

def Status.ofJson (j : Json) : Option Status := do
  let f ← j.fields ["phase"]
  return { phase := ← f.withDefault 0 default Choice.ofJson }

def toJson (c : Cluster) : Json :=
  .object [("metadata", c.metadata.toJson), ("status", c.status.toJson)]

def ofJson (j : Json) : Option Cluster := do
  let f ← j.fields ["metadata", "status"]
  return {
    metadata := ← f.required 0 Metadata.ofJson
    status := ← f.withDefault 1 default Status.ofJson }

def isFailed (c : Cluster) : Bool := c.status.phase = .failed

/-- The key of the cluster of a namespace. -/
def keyOf (ns : String) : Key := ⟨"", ns⟩

end Cluster

end PoolControl
