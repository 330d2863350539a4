import PoolControl.Resource.Event

/-! The cache of one kind of resource.

A store holds the newest known object of every key and is kept current by applying watch
events to it. Beside the objects it keeps an index from owners to the keys of the objects
that refer to them, an owner being named by its kind and its key. The index has an entry
for an owner exactly when some stored object refers to it, so looking up the objects of
an owner is a full scan in effect and a single lookup in cost. -/
namespace PoolControl

/-- An owner, by its kind and its key. -/
structure OwnerKey where
  kind : String
  key : Key
deriving DecidableEq, Inhabited

namespace OwnerKey

instance : Ord OwnerKey := ⟨compareLex (compareOn OwnerKey.kind) (compareOn OwnerKey.key)⟩

instance : Std.TransOrd OwnerKey :=
  inferInstanceAs (Std.TransCmp (compareLex (compareOn OwnerKey.kind) (compareOn OwnerKey.key)))

instance : Std.LawfulEqOrd OwnerKey where
  eq_of_compare {a b} h := by
    have h : (compare a.kind b.kind).then (compare a.key b.key) = .eq := h
    rw [Ordering.then_eq_eq] at h
    cases a
    cases b
    simp only [Std.compare_eq_iff_eq] at h
    simp [h.1, h.2]

end OwnerKey

/-- The owners an object refers to, in the order of its references. -/
def Metadata.ownerKeys (m : Metadata) : List OwnerKey :=
  m.owners.map fun r => ⟨r.kind, m.ns, r.name⟩

/-- For every owner the keys of the objects that refer to it. -/
abbrev OwnerIndex := OrderedMap OwnerKey (OrderedSet Key)

namespace OwnerIndex

/-- Enters `key` under one owner. -/
def enter (key : Key) (ix : OwnerIndex) (o : OwnerKey) : OwnerIndex :=
  OrderedMap.insert ix o (OrderedSet.add (OrderedMap.getD ix o ∅) key)

/-- Removes `key` from one owner's entry, and the entry with its last key. -/
def leave (key : Key) (ix : OwnerIndex) (o : OwnerKey) : OwnerIndex :=
  match OrderedMap.get? ix o with
  | none => ix
  | some keys =>
    let rest := OrderedMap.erase keys key
    if rest.isEmpty then OrderedMap.erase ix o else OrderedMap.insert ix o rest

end OwnerIndex

structure Store (K : Type) where
  objects : OrderedMap Key K
  owned : OwnerIndex

namespace Store

variable {K : Type}

def empty : Store K := ⟨∅, OrderedMap.empty⟩

instance : EmptyCollection (Store K) := ⟨empty⟩
instance : Inhabited (Store K) := ⟨empty⟩

def get? (s : Store K) (k : Key) : Option K := s.objects.get? k

/-- All objects in key order. -/
def list (s : Store K) : List K := s.objects.values

def size (s : Store K) : Nat := s.objects.size

/-- The objects of a namespace in key order. -/
def inNamespace (s : Store K) (ns : String) : List K :=
  (s.objects.toList.filter fun b => b.1.ns == ns).map (·.2)

/-- The objects that refer to an owner, in key order. -/
def ownedBy (s : Store K) (o : OwnerKey) : List K :=
  (OrderedSet.elements (OrderedMap.getD s.owned o ∅)).filterMap s.get?

variable [Resource K]

/-- Forgets the object of a key. -/
def remove (s : Store K) (k : Key) : Store K :=
  match s.get? k with
  | none => s
  | some x =>
    ⟨s.objects.erase k, (Resource.metadata x).ownerKeys.foldl (OwnerIndex.leave k) s.owned⟩

/-- Stores an object in place of any earlier one of its key. -/
def put (s : Store K) (x : K) : Store K :=
  let k := Resource.key x
  let s := s.remove k
  ⟨s.objects.insert k x, (Resource.metadata x).ownerKeys.foldl (OwnerIndex.enter k) s.owned⟩

/-- Applies a watch event: the newest object of a deletion goes, that of any other event
comes. -/
def apply (s : Store K) : Event K → Store K
  | .created x => s.put x
  | .updated _ x => s.put x
  | .generic x => s.put x
  | .deleted x => s.remove (Resource.key x)

/-- What the store says of itself. -/
def describe (s : Store K) : String :=
  "Store \x7b kind: \"" ++ (Resource.kind K).name ++ "\", len: " ++ toString s.size ++ " \x7d"

end Store

/-- The caches of all kinds. -/
structure Caches where
  workers : Store Worker
  machineSets : Store MachineSet
  machines : Store Machine
  clusters : Store Cluster
deriving Inhabited

/-- A kind of resource with a cache of its own. -/
class Cached (K : Type) extends Resource K where
  store : Caches → Store K
  withStore : Caches → Store K → Caches
  store_withStore : ∀ c s, store (withStore c s) = s

instance : Cached Worker := ⟨Caches.workers, fun c s => { c with workers := s }, fun _ _ => rfl⟩

instance : Cached MachineSet :=
  ⟨Caches.machineSets, fun c s => { c with machineSets := s }, fun _ _ => rfl⟩

instance : Cached Machine :=
  ⟨Caches.machines, fun c s => { c with machines := s }, fun _ _ => rfl⟩

instance : Cached Cluster :=
  ⟨Caches.clusters, fun c s => { c with clusters := s }, fun _ _ => rfl⟩

end PoolControl
