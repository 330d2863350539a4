import PoolControl.Routing.Predicate

/-! Which keys an event triggers.

A handler takes an event to a set of keys: to the key of its own object, or to the keys a
mapping finds for the object, and for the old object too if the handler says so. A mapping
looks only at the object and the caches. `ownerOf` resolves the single owner of a kind,
`tenantObjects` finds the objects in the namespace of a cluster. A mapping may fail; then
the event triggers nothing. -/
namespace PoolControl

/-- Why an object cannot be mapped to keys. -/
inductive MappingError
  | malformedOwner (object : Key) (reason : String)
  /-- Several references to owners of a kind, none or several of them controlling. -/
  | ambiguousOwner (object : Key) (kind : Kind) (count : Nat)
deriving DecidableEq

def MappingError.message : MappingError → String
  | .malformedOwner k r => "malformed owner reference on " ++ k.text ++ ": " ++ r
  | .ambiguousOwner k kind n =>
    k.text ++ " has " ++ toString n ++ " controlling " ++ kind.name ++ " owner references"

/-- The keys an object triggers, given the caches. -/
abbrev Mapping (S : Type) := Caches → S → Except MappingError (OrderedSet Key)

/-- Which sides of an update are mapped. -/
inductive MapMode
  | new
  | both
deriving DecidableEq, Inhabited

inductive Handler (S : Type)
  /-- The key of the event's object. -/
  | self
  | mapped (mapping : Mapping S) (mode : MapMode)

/-- Whether a reference means a given object: it may leave the uid open. -/
def OwnerReference.means (r : OwnerReference) (m : Metadata) : Bool :=
  match r.uid with
  | some u => u == m.uid
  | none => true

namespace Mapping

variable {S : Type}

/-- The reference that counts among those to owners of one kind: the only one, or else the
only controlling one. -/
def controlling (object : Key) (kind : Kind) :
    List OwnerReference → Except MappingError (Option OwnerReference)
  | [] => .ok none
  | [r] => .ok (some r)
  | rs =>
    match rs.filter (·.controller) with
    | [r] => .ok (some r)
    | _ => .error (.ambiguousOwner object kind rs.length)

/-- The key of the owner of kind `O`, if it is cached, the reference is not to an earlier
incarnation of it, and it passes the predicate. -/
def ownerOf (O : Type) [Cached O] [Resource S] (p : Predicate) : Mapping S := fun caches x =>
  let m := Resource.metadata x
  let kind := Resource.kind O
  match controlling m.key kind (m.ownersOfKind kind.name) with
  | .error e => .error e
  | .ok none => .ok ∅
  | .ok (some r) =>
    if r.name.isEmpty then
      .error (.malformedOwner m.key (kind.name ++ " owner reference has an empty name"))
    else
      let key : Key := ⟨m.ns, r.name⟩
      match (Cached.store caches : Store O).get? key with
      | none => .ok ∅
      | some owner =>
        if r.means (Resource.metadata owner) && p.keepsObject caches.clusters owner then
          .ok (OrderedSet.single key)
        else .ok ∅

/-- The keys of the objects of kind `O` in the namespace of a cluster that pass the
predicate. -/
def tenantObjects (O : Type) [Cached O] (p : Predicate) : Mapping Cluster := fun caches c =>
  .ok (OrderedSet.ofElements
    ((((Cached.store caches : Store O).inNamespace c.metadata.name).filter
      (p.keepsObject caches.clusters)).map Resource.key))

/-- The same keys for every object. -/
def fixed (keys : List Key) : Mapping S := fun _ _ => .ok (OrderedSet.ofElements keys)

/-- No keys for any object. -/
def failing [Resource S] (reason : String) : Mapping S := fun _ x =>
  .error (.malformedOwner (Resource.key x) reason)

end Mapping

namespace Handler

variable {S : Type} [Resource S]

/-- The keys an event triggers. The new object is mapped first, and any failure counts. -/
def keys (caches : Caches) (e : Event S) : Handler S → Except MappingError (OrderedSet Key)
  | .self => .ok (OrderedSet.single e.key)
  | .mapped mapping mode =>
    match mapping caches e.object with
    | .error err => .error err
    | .ok ks =>
      match mode, e.old? with
      | .both, some old =>
        match mapping caches old with
        | .error err => .error err
        | .ok ks' => .ok (OrderedSet.union ks ks')
      | _, _ => .ok ks

/-- The workers in the namespace of a cluster. -/
def clusterToWorkers (p : Predicate) : Handler Cluster :=
  .mapped (Mapping.tenantObjects Worker p) .new

/-- The worker that owns a machine or machine set. -/
def dependentToWorker (p : Predicate) : Handler S := .mapped (Mapping.ownerOf Worker p) .new

end Handler

end PoolControl
