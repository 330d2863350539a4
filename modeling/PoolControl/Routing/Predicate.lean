import PoolControl.Json.Pointer
import PoolControl.Store

/-! Which events may trigger a reconcile.

A predicate is a tree over a few tests of an event. It never fails: what cannot be told
keeps the event. `keeps` is its meaning; the cluster test looks up the cluster of the
object's namespace in the cache at the time of the event. `and` joins two predicates and
avoids nesting, without a change of meaning. -/
namespace PoolControl

inductive Predicate
  /-- Keeps every event. -/
  | always
  /-- Keeps events of objects at a backend. Kinds without backends never pass. -/
  | hasBackend (backend : String)
  /-- Keeps updates only if the new object requests an operation. -/
  | requested
  /-- Keeps updates only if they change the generation. -/
  | generationChanged
  /-- Drops events of objects whose cluster is known and failed. -/
  | clusterNotFailed
  /-- Keeps updates only if they change the part a JSON pointer selects. A part that is
  missing on either side counts as changed. -/
  | fieldChanged (path : String)
  /-- Keeps created and generic events whose last operation did not succeed. -/
  | unsuccessful
  /-- Keeps events of objects in deletion, updates only if they start it. -/
  | deleting
  | not (p : Predicate)
  | all (ps : List Predicate)
  | any (ps : List Predicate)
deriving Inhabited

namespace Predicate

/-! ### Meaning -/

/-- Whether the cluster of an object is known and failed. -/
def clusterFailed (clusters : Store Cluster) (m : Metadata) : Bool :=
  match clusters.get? (Cluster.keyOf m.ns) with
  | some c => c.isFailed
  | none => false

section

variable {K : Type} [Resource K]

/-- Whether a path selects different parts of two objects, or nothing in one of them. -/
def partsDiffer (path : String) (old new : K) : Bool :=
  match (Resource.toJson old).pointer path, (Resource.toJson new).pointer path with
  | some a, some b => !a.same b
  | _, _ => true

/-- Whether an object has a last operation that did not succeed. -/
def lastUnsuccessful (x : K) : Bool :=
  match Resource.lastOperation x with
  | some o => !o.succeeded
  | none => false

mutual

/-- Whether an event passes. -/
def keeps (clusters : Store Cluster) (e : Event K) : Predicate → Bool
  | .always => true
  | .hasBackend b => Resource.backend e.object == some b
  | .requested =>
    match e with
    | .updated _ x => (Resource.metadata x).request?.isSome
    | _ => true
  | .generationChanged =>
    match e with
    | .updated x y => (Resource.metadata x).generation != (Resource.metadata y).generation
    | _ => true
  | .clusterNotFailed => !clusterFailed clusters (Resource.metadata e.object)
  | .fieldChanged path =>
    match e with
    | .updated x y => partsDiffer path x y
    | _ => true
  | .unsuccessful =>
    match e with
    | .created x => lastUnsuccessful x
    | .generic x => lastUnsuccessful x
    | _ => false
  | .deleting =>
    match e with
    | .updated x y => !(Resource.metadata x).isDeleting && (Resource.metadata y).isDeleting
    | e => (Resource.metadata e.object).isDeleting
  | .not p => !keeps clusters e p
  | .all ps => keepsAll clusters e ps
  | .any ps => keepsAny clusters e ps

def keepsAll (clusters : Store Cluster) (e : Event K) : List Predicate → Bool
  | [] => true
  | p :: ps => keeps clusters e p && keepsAll clusters e ps

def keepsAny (clusters : Store Cluster) (e : Event K) : List Predicate → Bool
  | [] => false
  | p :: ps => keeps clusters e p || keepsAny clusters e ps

end

/-- Whether an object would pass in a generic event. -/
def keepsObject (clusters : Store Cluster) (p : Predicate) (x : K) : Bool :=
  p.keeps clusters (.generic x)

end

/-! ### Building predicates -/

/-- Both predicates. -/
def and (p q : Predicate) : Predicate :=
  match p with
  | .all ps => .all (ps ++ [q])
  | .always => q
  | p => .all [p, q]

/-- What triggers the main loop of a resource. If requests are ignored any change of the
spec does, otherwise a request, an operation that did not succeed, or the start of a
deletion. -/
def trigger (ignoreRequests : Bool) : Predicate :=
  if ignoreRequests then .generationChanged else .any [.requested, .unsuccessful, .deleting]

/-- The trigger, unless the cluster is failed. -/
def primary (ignoreRequests : Bool) : Predicate := .all [.clusterNotFailed, trigger ignoreRequests]

/-- Restricts a predicate to objects at a backend. -/
def atBackend (p : Predicate) (backend : String) : Predicate := p.and (.hasBackend backend)

/-- Cluster changes that workers are looked at again for. -/
def clusterChanges : Predicate := .fieldChanged "/status/phase"

/-- Machine set changes that the state of a worker reacts to. -/
def machineSetChanges : Predicate := .generationChanged

/-- Machine changes that the state of a worker reacts to. -/
def machineChanges : Predicate :=
  .any [.fieldChanged "/status/node", .fieldChanged "/status/phase", .generationChanged]

end Predicate

end PoolControl
