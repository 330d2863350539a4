import PoolControl.Resource.Cluster
import PoolControl.Resource.Worker

/-! What all resources have in common.

A resource has metadata that can be replaced, and a JSON form. A kind may tell its
backend and the last operation on it. Objects of a kind are compared up to the sign of
zero in free-form data, and their specs apart from metadata and status. -/
namespace PoolControl

/-- The kinds of resources. -/
inductive Kind
  | worker
  | machineSet
  | machine
  | cluster
deriving DecidableEq, Inhabited

instance : Choice Kind where
  all := [.worker, .machineSet, .machine, .cluster]
  name
    | .worker => "Worker"
    | .machineSet => "MachineSet"
    | .machine => "Machine"
    | .cluster => "Cluster"
  ofName?
    | "Worker" => some .worker
    | "MachineSet" => some .machineSet
    | "Machine" => some .machine
    | "Cluster" => some .cluster
    | _ => none
  ofName?_name x := by cases x <;> rfl
  name_of_ofName? h := by grind

def Kind.name (k : Kind) : String := Choice.name k

class Resource (K : Type) where
  kind : Kind
  metadata : K → Metadata
  withMetadata : K → Metadata → K
  /-- The backend the object belongs to, for kinds that have one. -/
  backend : K → Option String
  /-- The last operation on the object, for kinds that record one. -/
  lastOperation : K → Option LastOperation
  toJson : K → Json
  ofJson : Json → Option K
  /-- The object with the negative zeros of its free-form data made positive. -/
  unsigned : K → K
  /-- Whether two objects agree outside metadata and status. -/
  sameSpec : K → K → Bool
  decidableEq : DecidableEq K
  metadata_withMetadata : ∀ x m, metadata (withMetadata x m) = m
  withMetadata_metadata : ∀ x, withMetadata x (metadata x) = x
  withMetadata_withMetadata : ∀ x m n, withMetadata (withMetadata x m) n = withMetadata x n

namespace Resource

variable {K : Type} [Resource K]

instance (priority := low) : DecidableEq K := decidableEq

def key (x : K) : Key := (metadata x).key

/-- Whether two objects are equal as data. -/
def same (x y : K) : Bool := unsigned x = unsigned y

/-- A reference to a controlling owner. -/
def controllerReference (owner : K) : OwnerReference :=
  { kind := (kind K).name, name := (metadata owner).name, uid := some (metadata owner).uid,
    controller := true }

/-- The object with its metadata changed. -/
def mapMetadata (f : Metadata → Metadata) (x : K) : K := withMetadata x (f (metadata x))

/-- The object with an owner added. -/
def ownedBy {O : Type} [Resource O] (owner : O) (x : K) : K :=
  mapMetadata (fun m => { m with owners := m.owners ++ [controllerReference owner] }) x

end Resource

instance : Resource Worker where
  kind := .worker
  metadata := Worker.metadata
  withMetadata w m := { w with metadata := m }
  backend w := some w.spec.backend
  lastOperation w := w.status.lastOperation
  toJson := Worker.toJson
  ofJson := Worker.ofJson
  unsigned := Worker.unsigned
  sameSpec v w := v.unsigned.spec = w.unsigned.spec
  decidableEq := inferInstance
  metadata_withMetadata _ _ := rfl
  withMetadata_metadata _ := rfl
  withMetadata_withMetadata _ _ _ := rfl

instance : Resource MachineSet where
  kind := .machineSet
  metadata := MachineSet.metadata
  withMetadata s m := { s with metadata := m }
  backend _ := none
  lastOperation _ := none
  toJson := MachineSet.toJson
  ofJson := MachineSet.ofJson
  unsigned := id
  sameSpec s t := s.spec = t.spec
  decidableEq := inferInstance
  metadata_withMetadata _ _ := rfl
  withMetadata_metadata _ := rfl
  withMetadata_withMetadata _ _ _ := rfl

instance : Resource Machine where
  kind := .machine
  metadata := Machine.metadata
  withMetadata x m := { x with metadata := m }
  backend _ := none
  lastOperation _ := none
  toJson := Machine.toJson
  ofJson := Machine.ofJson
  unsigned := id
  sameSpec x y := x.spec = y.spec
  decidableEq := inferInstance
  metadata_withMetadata _ _ := rfl
  withMetadata_metadata _ := rfl
  withMetadata_withMetadata _ _ _ := rfl

instance : Resource Cluster where
  kind := .cluster
  metadata := Cluster.metadata
  withMetadata c m := { c with metadata := m }
  backend _ := none
  lastOperation _ := none
  toJson := Cluster.toJson
  ofJson := Cluster.ofJson
  unsigned := id
  sameSpec _ _ := true
  decidableEq := inferInstance
  metadata_withMetadata _ _ := rfl
  withMetadata_metadata _ := rfl
  withMetadata_withMetadata _ _ _ := rfl

end PoolControl
