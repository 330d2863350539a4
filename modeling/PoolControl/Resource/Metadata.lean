import PoolControl.Identity.Key
import PoolControl.Identity.Uid
import PoolControl.Resource.Operation

/-! Metadata common to all resources.

The generation counts changes of what the user asked for, the resource version changes of
any kind. An object whose deletion was requested stays until its last finalizer is gone.
An owner reference names an object of the same namespace, with its uid if a particular
incarnation is meant, and says whether that owner is the controlling one. -/
namespace PoolControl

namespace Uid

variable {t : UidTag}

def toJson (u : Uid t) : Json := .string u.text

def ofJson (j : Json) : Option (Uid t) :=
  j.asString.bind fun s => (read t s).toOption

end Uid

namespace Key

def toJson (k : Key) : Json := .object [("namespace", .string k.ns), ("name", .string k.name)]

def ofJson (j : Json) : Option Key := do
  let f ← j.fields ["namespace", "name"]
  return { ns := ← f.required 0 Json.asString, name := ← f.required 1 Json.asString }

end Key

/-- A reference to an owner in the same namespace. -/
structure OwnerReference where
  kind : String
  name : String
  uid : Option ObjectUid
  controller : Bool
deriving DecidableEq, Inhabited

namespace OwnerReference

def toJson (r : OwnerReference) : Json :=
  Json.record [("kind", some (.string r.kind)), ("name", some (.string r.name)),
    ("uid", r.uid.map Uid.toJson), ("controller", some (.bool r.controller))]

def ofJson (j : Json) : Option OwnerReference := do
  let f ← j.fields ["kind", "name", "uid", "controller"]
  return {
    kind := ← f.required 0 Json.asString
    name := ← f.required 1 Json.asString
    uid := ← f.optional 2 Uid.ofJson
    controller := ← f.withDefault 3 false Json.asBool }

end OwnerReference

structure Metadata where
  name : String
  ns : String
  uid : ObjectUid
  generation : Int
  resourceVersion : Nat
  labels : OrderedMap String String
  annotations : OrderedMap String String
  finalizers : List String
  owners : List OwnerReference
  created : Option Timestamp
  deleted : Option Timestamp
deriving DecidableEq, Inhabited

namespace Metadata

/-- The annotation that requests an operation. -/
def requestName : String := "nodepool.dev/operation"

/-- The metadata of a new object. -/
def new (ns name : String) (uid : ObjectUid) : Metadata :=
  { name, ns, uid, generation := 1, resourceVersion := 0, labels := ∅, annotations := ∅,
    finalizers := [], owners := [], created := none, deleted := none }

def key (m : Metadata) : Key := ⟨m.ns, m.name⟩

def hasFinalizer (m : Metadata) (f : String) : Bool := m.finalizers.contains f

/-- Whether deletion was requested. -/
def isDeleting (m : Metadata) : Bool := m.deleted.isSome

/-- The requested operation as written by the user. -/
def request? (m : Metadata) : Option String := m.annotations.get? requestName

/-- The references to owners of a kind. -/
def ownersOfKind (m : Metadata) (kind : String) : List OwnerReference :=
  m.owners.filter (·.kind == kind)

def toJson (m : Metadata) : Json :=
  Json.record [("name", some (.string m.name)), ("namespace", some (.string m.ns)),
    ("uid", some m.uid.toJson), ("generation", some (.int m.generation)),
    ("resourceVersion", some (Json.ofNat m.resourceVersion)),
    ("labels", Json.unlessEmpty m.labels.isEmpty (Json.ofDictionary .string m.labels)),
    ("annotations",
      Json.unlessEmpty m.annotations.isEmpty (Json.ofDictionary .string m.annotations)),
    ("finalizers", Json.unlessEmpty m.finalizers.isEmpty (Json.ofList .string m.finalizers)),
    ("ownerReferences",
      Json.unlessEmpty m.owners.isEmpty (Json.ofList OwnerReference.toJson m.owners)),
    ("creationTimestamp", m.created.map Timestamp.toJson),
    ("deletionTimestamp", m.deleted.map Timestamp.toJson)]

def ofJson (j : Json) : Option Metadata := do
  let f ← j.fields ["name", "namespace", "uid", "generation", "resourceVersion", "labels",
    "annotations", "finalizers", "ownerReferences", "creationTimestamp", "deletionTimestamp"]
  return {
    name := ← f.required 0 Json.asString
    ns := ← f.required 1 Json.asString
    uid := ← f.required 2 Uid.ofJson
    generation := ← f.withDefault 3 0 Json.asInt64
    resourceVersion := ← f.withDefault 4 0 Json.asNat64
    labels := ← f.withDefault 5 ∅ (Json.asDictionary Json.asString)
    annotations := ← f.withDefault 6 ∅ (Json.asDictionary Json.asString)
    finalizers := ← f.withDefault 7 [] (Json.asList Json.asString)
    owners := ← f.withDefault 8 [] (Json.asList OwnerReference.ofJson)
    created := ← f.optional 9 Timestamp.ofJson
    deleted := ← f.optional 10 Timestamp.ofJson }

end Metadata

end PoolControl
