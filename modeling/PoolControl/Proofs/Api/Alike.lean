import Mathlib.Data.List.Forall2
import PoolControl.Proofs.Api.Writers

/-! Objects that differ only in what is not looked at.

A `View` erases fields of an object and leaves what a store files it by. Two stores, trackers or
APIs are alike in a view if they differ only in what it erases: in the objects that are
stored, and in those that the feeds still have to deliver. Events that look the same keep
stores and trackers alike. A write keeps APIs alike, and is answered the same by both, if it
does the same to workers that look the same (`Api.Alike.write`).

Each loop has a view of workers: `View.operations` erases the state that is reported, and
`View.reports` all that the other loop writes. -/
namespace PoolControl

/-- Erases fields of an object, but none that it is filed by. -/
structure View (K : Type) [Resource K] where
  see : K → K
  key : ∀ x, Resource.key (see x) = Resource.key x
  owners : ∀ x, (Resource.metadata (see x)).ownerKeys = (Resource.metadata x).ownerKeys

section

variable {K : Type} [Resource K] {V : View K} {x y : K}

/-- Whether two objects look the same. -/
def View.Same (V : View K) (x y : K) : Prop := V.see x = V.see y

theorem View.Same.key (h : V.Same x y) : Resource.key x = Resource.key y := by
  rw [← V.key x, ← V.key y, h]

theorem View.Same.owners (h : V.Same x y) :
    (Resource.metadata x).ownerKeys = (Resource.metadata y).ownerKeys := by
  rw [← V.owners x, ← V.owners y, h]

/-- Events about objects that look the same. -/
inductive Event.Alike (V : View K) : Event K → Event K → Prop
  | created {x y : K} (h : V.Same x y) : Alike V (.created x) (.created y)
  | updated {x x' y y' : K} (old : V.Same x y) (new : V.Same x' y') :
      Alike V (.updated x x') (.updated y y')
  | deleted {x y : K} (h : V.Same x y) : Alike V (.deleted x) (.deleted y)
  | generic {x y : K} (h : V.Same x y) : Alike V (.generic x) (.generic y)

/-! ### Stores -/

namespace Store

variable {s s' : Store K}

/-- Stores that differ only in what a view erases. -/
structure Alike (V : View K) (s s' : Store K) : Prop where
  stored : ∀ k, Option.Rel V.Same (s.get? k) (s'.get? k)
  owned : s.owned = s'.owned

theorem Alike.remove (h : s.Alike V s') (k : Key) : (s.remove k).Alike V (s'.remove k) := by
  refine ⟨fun k' => ?_, ?_⟩
  · rw [get?_remove, get?_remove]
    split
    · exact .none
    · exact h.stored k'
  · have stored := h.stored k
    unfold Store.remove
    generalize s.get? k = found at stored
    generalize s'.get? k = found' at stored
    cases stored with
    | none => exact h.owned
    | some same =>
      dsimp only
      rw [same.owners, h.owned]

theorem Alike.put (h : s.Alike V s') (same : V.Same x y) : (s.put x).Alike V (s'.put y) := by
  refine ⟨fun k => ?_, ?_⟩
  · rw [get?_put, get?_put, same.key]
    split
    · exact .some same
    · exact h.stored k
  · show (Resource.metadata x).ownerKeys.foldl (OwnerIndex.enter (Resource.key x))
        (s.remove (Resource.key x)).owned = (Resource.metadata y).ownerKeys.foldl
          (OwnerIndex.enter (Resource.key y)) (s'.remove (Resource.key y)).owned
    rw [same.owners, same.key, (h.remove _).owned]

/-- **Events that look the same keep stores alike.** -/
theorem Alike.apply (h : s.Alike V s') {e e' : Event K} (told : e.Alike V e') :
    (s.apply e).Alike V (s'.apply e') := by
  cases told with
  | created same => exact h.put same
  | updated _ same => exact h.put same
  | deleted same =>
    show (s.remove _).Alike V (s'.remove _)
    rw [same.key]
    exact h.remove _
  | generic same => exact h.put same

end Store

/-! ### Trackers -/

/-- Feeds with events about objects that look the same. -/
structure Feed.Alike (V : View K) (f f' : Feed K) : Prop where
  id : f.id = f'.id
  events : List.Forall₂ (Event.Alike V) f.events f'.events

namespace Tracker

variable {t t' : Tracker K}

/-- Trackers that differ only in what a view erases. -/
structure Alike (V : View K) (t t' : Tracker K) : Prop where
  store : t.store.Alike V t'.store
  version : t.version = t'.version
  feeds : List.Forall₂ (Feed.Alike V) t.feeds t'.feeds

theorem Alike.publish (h : t.Alike V t') {e e' : Event K} (told : e.Alike V e') :
    (t.publish e).Alike V (t'.publish e') := by
  refine ⟨h.store.apply told, h.version, ?_⟩
  refine List.forall₂_map_left_iff.mpr (List.forall₂_map_right_iff.mpr (h.feeds.imp ?_))
  intro f f' same
  exact ⟨same.id, List.rel_append same.events (.cons told .nil)⟩

end Tracker

end

/-! ### Writes -/

namespace Api

variable {a a' : Api} {x : Write} {V : View Worker} {w w' : Worker}

/-- APIs that differ only in what a view erases of workers. -/
structure Alike (V : View Worker) (a a' : Api) : Prop where
  workers : a.workers.Alike V a'.workers
  machineSets : a.machineSets = a'.machineSets
  machines : a.machines = a'.machines
  clusters : a.clusters = a'.clusters

end Api

/-- Whether a write does the same to workers that look the same, but that it may take the one away
and not the other. -/
structure Write.Steady (V : View Worker) (x : Write) : Prop where
  idle : ∀ {w w'}, V.Same w w' → (x.Idle w ↔ x.Idle w')
  change : ∀ {w w'} v, V.Same w w' → V.Same ((x.change w).versioned v) ((x.change w').versioned v)

namespace Api

variable {a a' : Api} {x : Write} {V : View Worker} {w w' : Worker}

theorem told_alike (steady : x.Steady V) (same : V.Same w w') (ends : x.Ends w ↔ x.Ends w')
    (v : Nat) : (told x w v).Alike V (told x w' v) := by
  unfold told
  by_cases gone : x.Ends w
  · rw [if_pos gone, if_pos (ends.mp gone)]
    exact .deleted (steady.change v same)
  · rw [if_neg gone, if_neg (mt ends.mpr gone)]
    exact .updated same (steady.change v same)

/-- **A steady write keeps APIs alike**, and both answer it the same. -/
theorem Alike.write (h : a.Alike V a') (steady : x.Steady V)
    (ends : ∀ w w', a.workers.get? x.key = some w → a'.workers.get? x.key = some w' →
      V.Same w w' → (x.Ends w ↔ x.Ends w')) :
    (a.write x).1 = (a'.write x).1 ∧ (a.write x).2.Alike V (a'.write x).2 := by
  have stored : Option.Rel V.Same (a.workers.get? x.key) (a'.workers.get? x.key) :=
    h.workers.store.stored x.key
  cases found : a.workers.get? x.key with
  | none =>
    rw [found] at stored
    cases found' : a'.workers.get? x.key with
    | none =>
      rw [write_of_missing found, write_of_missing found']
      exact ⟨rfl, h⟩
    | some w' =>
      rw [found'] at stored
      cases stored
  | some w =>
    rw [found] at stored
    cases found' : a'.workers.get? x.key with
    | none =>
      rw [found'] at stored
      cases stored
    | some w' =>
      rw [found'] at stored
      cases stored with
      | some same =>
      rw [write_of_found found, write_of_found found']
      by_cases idle : x.Idle w
      · rw [if_pos idle, if_pos ((steady.idle same).mp idle)]
        exact ⟨rfl, h⟩
      · have event := told_alike steady same (ends w w' found found' same) (a.workers.version + 1)
        rw [if_neg idle, if_neg (mt (steady.idle same).mpr idle), ← h.workers.version]
        have numbered : Tracker.Alike V { a.workers with version := a.workers.version + 1 }
            { a'.workers with version := a.workers.version + 1 } :=
          ⟨h.workers.store, rfl, h.workers.feeds⟩
        exact ⟨rfl, numbered.publish event, h.machineSets, h.machines, h.clusters⟩

end Api

/-! ### The views of the two loops -/

namespace Worker

/-- The worker with all that the provisioning loop writes as in `v`. -/
def operatedAs (w v : Worker) : Worker :=
  { w with
    metadata :=
      { w.metadata with
        annotations := v.metadata.annotations, finalizers := v.metadata.finalizers }
    status := { v.status with state := w.status.state } }

end Worker

namespace View

variable {x : Write} {w w' : Worker}

/-- The view of the provisioning loop, which does not look at the state of the machines. -/
def operations : View Worker where
  see := Worker.showing none
  key _ := rfl
  owners _ := rfl

/-- The view of the report loop, which looks at no record, finalizer or annotation. -/
def reports : View Worker where
  see w := w.operatedAs default
  key _ := rfl
  owners _ := rfl

theorem eq_of_operations_same (h : operations.Same w w') : w' = w.showing w'.status.state := by
  have seen : w'.showing none = w.showing none := h.symm
  calc w'
    _ = (w'.showing none).showing w'.status.state := rfl
    _ = (w.showing none).showing w'.status.state := by rw [seen]

theorem eq_of_reports_same (h : reports.Same w w') : w' = w.operatedAs w' := by
  have seen : w'.operatedAs default = w.operatedAs default := h.symm
  calc w'
    _ = (w'.operatedAs default).operatedAs w' := rfl
    _ = (w.operatedAs default).operatedAs w' := by rw [seen]

end View

namespace Write

variable {x : Write} {w : Worker} (other : ∀ s, x ≠ .state x.key s)

include other

theorem steady_operations : x.Steady .operations where
  idle {w w'} same := by
    rw [View.eq_of_operations_same same]
    exact (idle_showing other _).symm
  change {w w'} v same := by
    rw [View.eq_of_operations_same same, change_showing other]
    rfl

omit other in
theorem steady_reports (k : Key) (s : WorkerState) : (state k s).Steady .reports where
  idle {w w'} same := by
    rw [idle_state, idle_state, View.eq_of_reports_same same]
    exact Iff.rfl
  change {w w'} v same := congrArg (fun w => ((state k s).change w).versioned v) same

end Write

end PoolControl
