import PoolControl.Store

/-! The objects of one kind behind the API, and the feeds that watch them.

A tracker owns the parts of the metadata that users may not set: it numbers every effective
write with a resource version larger than all before, counts changes of the spec and the
request for deletion in the generation, and keeps names, uid and timestamps. A write that
changes nothing is not published. A deletion removes an object without finalizers at once
and marks any other; a marked object goes with its last finalizer.

Every published event goes to the tracker's own store and to every feed. A feed starts
with a `created` event per stored object, so applying what a feed received to an empty
store gives the contents of the tracker. -/
namespace PoolControl

/-- Why the API refused a call. -/
inductive ApiError
  | notFound (kind : Kind) (key : Key)
  | alreadyExists (kind : Kind) (key : Key)
  /-- The API could not be reached. -/
  | unavailable (reason : String)
deriving DecidableEq

namespace ApiError

def message : ApiError → String
  | .notFound kind k => kind.name ++ " " ++ k.text ++ " not found"
  | .alreadyExists kind k => kind.name ++ " " ++ k.text ++ " already exists"
  | .unavailable s => "api unavailable: " ++ s

def isNotFound : ApiError → Bool
  | .notFound _ _ => true
  | _ => false

end ApiError

/-- What a watcher has not taken yet, oldest first. -/
structure Feed (K : Type) where
  id : Nat
  events : List (Event K)

structure Tracker (K : Type) where
  store : Store K
  /-- The resource version of the last effective write. -/
  version : Nat
  feeds : List (Feed K)
deriving Inhabited

namespace Tracker

variable {K : Type}

def empty : Tracker K := ⟨∅, 0, []⟩

instance : EmptyCollection (Tracker K) := ⟨empty⟩

def get? (t : Tracker K) (k : Key) : Option K := t.store.get? k

def list (t : Tracker K) : List K := t.store.list

variable [Resource K]

/-- Applies an event to the store and tells every feed. -/
def publish (t : Tracker K) (e : Event K) : Tracker K :=
  { t with
    store := t.store.apply e
    feeds := t.feeds.map fun f => { f with events := f.events ++ [e] } }

/-- The kind of the tracker's objects. -/
def kind (_ : Tracker K) : Kind := Resource.kind K

/-! ### Writing -/

/-- Stores a new object. -/
def create (t : Tracker K) (now : Timestamp) (x : K) : Except ApiError K × Tracker K :=
  let k := Resource.key x
  match t.get? k with
  | some _ => (.error (.alreadyExists t.kind k), t)
  | none =>
    let v := t.version + 1
    let x := Resource.mapMetadata (fun m =>
      { m with
        resourceVersion := v, generation := 1, created := some (m.created.getD now) }) x
    (.ok x, { t with version := v }.publish (.created x))

/-- Puts the metadata that users may not set back to that of the old object. -/
def restoreMetadata (old m : Metadata) : Metadata :=
  { m with
    name := old.name
    ns := old.ns
    uid := old.uid
    created := old.created
    deleted := old.deleted
    resourceVersion := old.resourceVersion
    generation := old.generation }

/-- The object a change makes of `old`, before it is numbered. -/
def proposed (old : K) (change : K → K) : K :=
  Resource.mapMetadata (restoreMetadata (Resource.metadata old)) (change old)

/-- The numbered object, with the generation raised if the spec changed. -/
def numbered (version : Nat) (old new : K) : K :=
  Resource.mapMetadata (fun m =>
    { m with
      generation := if Resource.sameSpec old new then m.generation else m.generation + 1
      resourceVersion := version }) new

/-- The event of an effective write: a marked object without finalizers is gone. -/
def writeEvent (old new : K) : Event K :=
  let m := Resource.metadata new
  if m.isDeleting && m.finalizers.isEmpty then .deleted new else .updated old new

/-- Changes an object. -/
def modify (t : Tracker K) (k : Key) (change : K → K) : Except ApiError K × Tracker K :=
  match t.get? k with
  | none => (.error (.notFound t.kind k), t)
  | some old =>
    let new := proposed old change
    if Resource.same new old then (.ok old, t)
    else
      let v := t.version + 1
      let new := numbered v old new
      (.ok new, { t with version := v }.publish (writeEvent old new))

/-- Replaces the object of the same key. -/
def update (t : Tracker K) (x : K) : Except ApiError K × Tracker K :=
  t.modify (Resource.key x) fun _ => x

/-- The object marked for deletion. -/
def marked (version : Nat) (now : Timestamp) (x : K) : K :=
  Resource.mapMetadata (fun m =>
    { m with
      deleted := some now, generation := m.generation + 1, resourceVersion := version }) x

/-- Requests the deletion of an object. -/
def delete (t : Tracker K) (now : Timestamp) (k : Key) : Except ApiError Unit × Tracker K :=
  match t.get? k with
  | none => (.error (.notFound t.kind k), t)
  | some x =>
    let m := Resource.metadata x
    if m.finalizers.isEmpty then (.ok (), t.publish (.deleted x))
    else if m.isDeleting then (.ok (), t)
    else
      let v := t.version + 1
      (.ok (), { t with version := v }.publish (.updated x (marked v now x)))

/-- Tells every object again. -/
def resync (t : Tracker K) : Tracker K :=
  t.list.foldl (fun t x => t.publish (.generic x)) t

/-! ### Watching -/

omit [Resource K] in
/-- Adds a feed. -/
def watch (t : Tracker K) (id : Nat) : Tracker K :=
  { t with feeds := t.feeds ++ [⟨id, t.list.map .created⟩] }

omit [Resource K] in
/-- Removes a feed. -/
def unwatch (t : Tracker K) (id : Nat) : Tracker K :=
  { t with feeds := t.feeds.filter (·.id ≠ id) }

omit [Resource K] in
/-- What a feed has to deliver. -/
def pending (t : Tracker K) (id : Nat) : List (Event K) :=
  t.feeds.flatMap fun f => if f.id = id then f.events else []

omit [Resource K] in
/-- Drops the first `n` events of a feed. -/
def advance (t : Tracker K) (id n : Nat) : Tracker K :=
  { t with
    feeds := t.feeds.map fun f => if f.id = id then { f with events := f.events.drop n } else f }

end Tracker

end PoolControl
