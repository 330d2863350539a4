import PoolControl.Proofs.Api.Tracker
import PoolControl.Trial.Fixture

/-! Two loops that write to one worker.

The loop that reports writes the state of the machines, and the loop that runs operations
all else that controllers write. Each write reads the worker, changes it and puts it back, so
that three things can become of it: nothing if the worker is as the write wants it, the worker
with the next version, or no worker at all if it is in deletion and has lost its last
finalizer. `land` says this of the worker and the version of the tracker, and `entry_write`
that it is what the API does.

Neither loop touches what the other one writes. So whether a write has an effect, and
whether it takes the worker away, does not depend on the writes of the other loop
(`Idle.state_first`, `Idle.state_last`, `Ends.state_first`), and `land_state_comm` goes through
the outcomes of the two: only the counter of the tracker can tell in which order they came,
and only if the worker is gone. -/
namespace PoolControl

/-- The worker at another resource version. -/
def Worker.versioned (v : Nat) (w : Worker) : Worker :=
  { w with metadata := { w.metadata with resourceVersion := v } }

/-- The worker with another state reported. -/
def Worker.showing (o : Option WorkerState) (w : Worker) : Worker :=
  { w with status := { w.status with state := o } }

namespace Write

variable {x : Write} {w : Worker} {k : Key} {s : WorkerState}

/-- The worker is already as the write wants it, for all that the tracker can tell. -/
def Idle (x : Write) (w : Worker) : Prop := Resource.same (x.change w) w = true

/-- The write leaves a worker in deletion without finalizers. -/
def Ends (x : Write) (w : Worker) : Prop :=
  (x.change w).metadata.isDeleting = true ∧ (x.change w).metadata.finalizers = []

instance (x : Write) (w : Worker) : Decidable (x.Idle w) := by unfold Idle; infer_instance

instance (x : Write) (w : Worker) : Decidable (x.Ends w) := by unfold Ends; infer_instance

/-! ### What a write changes -/

/-- Of the metadata, writes change finalizers and annotations. -/
theorem metadata_change (x : Write) (w : Worker) :
    (x.change w).metadata =
      { w.metadata with
        finalizers := (x.change w).metadata.finalizers
        annotations := (x.change w).metadata.annotations } := by
  cases x with
  | addFinalizer =>
    simp only [change]
    split <;> rfl
  | _ => rfl

theorem key_change (x : Write) (w : Worker) : (x.change w).key = w.key := by
  rw [Worker.key, metadata_change]
  rfl

/-- The tracker has nothing to put back. -/
theorem proposed_change (x : Write) (w : Worker) :
    Tracker.proposed w x.change = x.change w := by
  have kept : Tracker.restoreMetadata w.metadata (x.change w).metadata = (x.change w).metadata := by
    rw [metadata_change]
    rfl
  show { x.change w with
    metadata := Tracker.restoreMetadata w.metadata (x.change w).metadata } = x.change w
  rw [kept]

/-- The generation stays. -/
theorem numbered_change (v : Nat) (x : Write) (w : Worker) :
    Tracker.numbered v w (x.change w) = (x.change w).versioned v := by
  have same : Resource.sameSpec w (x.change w) = true := by
    refine decide_eq_true ?_
    simp only [Worker.unsigned, spec_change]
  simp only [Tracker.numbered, same, if_true]
  rfl

/-- Only a report changes the state. -/
theorem state_change (other : ∀ s, x ≠ .state x.key s) (w : Worker) :
    (x.change w).status.state = w.status.state := by
  cases x with
  | state k s => exact absurd rfl (other s)
  | addFinalizer =>
    simp only [change]
    split <;> rfl
  | _ => rfl

/-! ### A version more or less -/

theorem change_versioned (v : Nat) (x : Write) (w : Worker) :
    x.change (w.versioned v) = (x.change w).versioned v := by
  cases x with
  | addFinalizer k f =>
    show (if w.metadata.hasFinalizer f then _ else _) =
      Worker.versioned v (if w.metadata.hasFinalizer f then _ else _)
    split <;> rfl
  | _ => rfl

/-- A field that a write neither reads nor changes does not decide whether it has an effect. -/
theorem idle_put {α : Type} (put : α → Worker → Worker) (get : Worker → α) (v : α)
    (restores : ∀ w, put (get w) (put v w) = w)
    (unsigned : ∀ w, (put v w).unsigned = put v w.unsigned) (signless : ∀ w, get w.unsigned = get w)
    (commutes : x.change (put v w) = put v (x.change w)) (keeps : get (x.change w) = get w) :
    x.Idle (put v w) ↔ x.Idle w := by
  simp only [Idle, Resource.same, decide_eq_true_iff]
  rw [commutes]
  show (put v (x.change w)).unsigned = (put v w).unsigned ↔ (x.change w).unsigned = w.unsigned
  rw [unsigned, unsigned]
  refine ⟨fun h => ?_, congrArg _⟩
  have same : get (x.change w).unsigned = get w.unsigned := by rw [signless, signless, keeps]
  calc (x.change w).unsigned
    _ = put (get (x.change w).unsigned) (put v (x.change w).unsigned) := (restores _).symm
    _ = put (get w.unsigned) (put v w.unsigned) := by rw [same, h]
    _ = w.unsigned := restores _

theorem idle_versioned (v : Nat) : x.Idle (w.versioned v) ↔ x.Idle w :=
  idle_put Worker.versioned (fun w => w.metadata.resourceVersion) v (fun _ => rfl) (fun _ => rfl)
    (fun _ => rfl) (change_versioned v x w) (by rw [metadata_change])

theorem ends_versioned (v : Nat) : x.Ends (w.versioned v) ↔ x.Ends w := by
  rw [Ends, Ends, change_versioned]
  rfl

/-! ### The writes of the two loops -/

variable (other : ∀ s, x ≠ .state x.key s)

include other in
theorem change_showing (o : Option WorkerState) (w : Worker) :
    x.change (w.showing o) = (x.change w).showing o := by
  cases x with
  | state k s => exact absurd rfl (other s)
  | addFinalizer k f =>
    show (if w.metadata.hasFinalizer f then _ else _) =
      Worker.showing o (if w.metadata.hasFinalizer f then _ else _)
    split <;> rfl
  | _ => rfl

include other in
theorem idle_showing (o : Option WorkerState) : x.Idle (w.showing o) ↔ x.Idle w :=
  idle_put Worker.showing (fun w => w.status.state) o (fun _ => rfl) (fun _ => rfl)
    (fun _ => rfl) (change_showing other o w) (state_change other w)

include other in
theorem ends_showing (o : Option WorkerState) : x.Ends (w.showing o) ↔ x.Ends w := by
  rw [Ends, Ends, change_showing other]
  rfl

include other in
theorem change_state_comm (w : Worker) :
    x.change ((state k s).change w) = (state k s).change (x.change w) :=
  change_showing other (some s) w

include other in
/-- A report does not decide whether another write has an effect. -/
theorem idle_change_state : x.Idle ((state k s).change w) ↔ x.Idle w :=
  idle_showing other (some s)

include other in
theorem ends_change_state : x.Ends ((state k s).change w) ↔ x.Ends w :=
  ends_showing other (some s)

theorem idle_state : (state k s).Idle w ↔ w.status.state = some s := by
  rw [Idle, Resource.same, decide_eq_true_iff]
  refine ⟨fun h => ?_, fun h => ?_⟩
  · exact (congrArg (fun w : Worker => w.status.state) h).symm
  · show (⟨w.metadata, w.spec, { w.status with state := some s }⟩ : Worker).unsigned = w.unsigned
    rw [← h]

include other in
/-- Another write does not decide whether a report has an effect. -/
theorem idle_state_change : (state k s).Idle (x.change w) ↔ (state k s).Idle w := by
  rw [idle_state, idle_state, state_change other]

/-- A report takes no worker away. -/
theorem not_ends_state (held : w.metadata.isDeleting = true → w.metadata.finalizers ≠ []) :
    ¬ (state k s).Ends w :=
  fun ends => held ends.1 ends.2

/-! ### What becomes of a worker -/

/-- What a write makes of what stands under its key and of the version of the tracker. -/
def land (x : Write) : Option Worker × Nat → Option Worker × Nat
  | (none, v) => (none, v)
  | (some w, v) =>
    if x.Idle w then (some w, v)
    else if x.Ends w then (none, v + 1)
    else (some ((x.change w).versioned (v + 1)), v + 1)

variable {v : Nat}

theorem land_idle (h : x.Idle w) : x.land (some w, v) = (some w, v) := if_pos h

theorem land_ends (h : ¬ x.Idle w) (ends : x.Ends w) : x.land (some w, v) = (none, v + 1) :=
  (if_neg h).trans (if_pos ends)

theorem land_stays (h : ¬ x.Idle w) (stays : ¬ x.Ends w) :
    x.land (some w, v) = (some ((x.change w).versioned (v + 1)), v + 1) :=
  (if_neg h).trans (if_neg stays)

include other in
/-- **A report and another write commute.** What stands under the key is the same in either
order, version included, and so is the version of the tracker unless the worker is gone. -/
theorem land_state_comm (held : w.metadata.isDeleting = true → w.metadata.finalizers ≠ []) :
    (x.land ((state k s).land (some w, v))).1 = ((state k s).land (x.land (some w, v))).1 ∧
      (¬ x.Ends w →
        (x.land ((state k s).land (some w, v))).2 = ((state k s).land (x.land (some w, v))).2) := by
  by_cases reported : (state k s).Idle w
  · rw [land_idle reported]
    by_cases idle : x.Idle w
    · rw [land_idle idle, land_idle reported]
      exact ⟨rfl, fun _ => rfl⟩
    · by_cases ends : x.Ends w
      · rw [land_ends idle ends]
        exact ⟨rfl, fun stays => absurd ends stays⟩
      · have still : (state k s).Idle ((x.change w).versioned (v + 1)) :=
          (idle_versioned _).mpr ((idle_state_change other).mpr reported)
        rw [land_stays idle ends, land_idle still]
        exact ⟨rfl, fun _ => rfl⟩
  · have kept : ¬ (state k s).Ends w := not_ends_state held
    rw [land_stays reported kept]
    have idle_iff : x.Idle (((state k s).change w).versioned (v + 1)) ↔ x.Idle w :=
      (idle_versioned _).trans (idle_change_state other)
    have ends_iff : x.Ends (((state k s).change w).versioned (v + 1)) ↔ x.Ends w :=
      (ends_versioned _).trans (ends_change_state other)
    by_cases idle : x.Idle w
    · rw [land_idle idle, land_idle (idle_iff.mpr idle), land_stays reported kept]
      exact ⟨rfl, fun _ => rfl⟩
    · by_cases ends : x.Ends w
      · rw [land_ends idle ends, land_ends (mt idle_iff.mp idle) (ends_iff.mpr ends)]
        exact ⟨rfl, fun stays => absurd ends stays⟩
      · have unreported : ¬ (state k s).Idle ((x.change w).versioned (v + 1)) :=
          mt (fun h => (idle_state_change other).mp ((idle_versioned _).mp h)) reported
        have stays : ¬ (state k s).Ends ((x.change w).versioned (v + 1)) := by
          refine not_ends_state fun deleting bare => ends ⟨?_, bare⟩
          exact deleting
        rw [land_stays idle ends, land_stays unreported stays,
          land_stays (mt idle_iff.mp idle) (mt ends_iff.mp ends), change_versioned,
          change_versioned, change_state_comm other]
        exact ⟨rfl, fun _ => rfl⟩

end Write

/-! ### The API -/

namespace Api

variable {a : Api} {x : Write} {k : Key} {w : Worker}

/-- The event of a write that has an effect. -/
def told (x : Write) (w : Worker) (v : Nat) : Event Worker :=
  if x.Ends w then .deleted ((x.change w).versioned v)
  else .updated w ((x.change w).versioned v)

/-- A write to a worker that is there has no effect, or is published. -/
theorem write_of_found (found : a.workers.get? x.key = some w) :
    a.write x =
      if x.Idle w then (.ok (), a)
      else (.ok (), { a with
        workers := { a.workers with version := a.workers.version + 1 }.publish
          (told x w (a.workers.version + 1)) }) := by
  have event : Tracker.writeEvent w ((x.change w).versioned (a.workers.version + 1)) =
      told x w (a.workers.version + 1) := by
    rcases Tracker.writeEvent_cases w ((x.change w).versioned (a.workers.version + 1)) with
      ⟨deleting, bare, gone⟩ | ⟨stays, kept⟩
    · rw [gone, told, if_pos ⟨deleting, bare⟩]
    · rw [kept, told, if_neg fun ends => stays ends.1 ends.2]
  simp only [write, Tracker.modify, found, Write.proposed_change, Write.numbered_change, event]
  by_cases idle : x.Idle w
  · rw [if_pos idle, if_pos (show Resource.same (x.change w) w = true from idle)]
  · rw [if_neg idle, if_neg (show ¬ Resource.same (x.change w) w = true from idle)]

/-- What stands under a key, and the version of the tracker. -/
def entry (a : Api) (k : Key) : Option Worker × Nat := (a.workers.get? k, a.workers.version)

theorem entry_write (keyed : a.workers.Keyed) (x : Write) :
    (a.write x).2.entry x.key = x.land (a.entry x.key) := by
  cases found : a.workers.get? x.key with
  | none =>
    rw [write_of_missing found, entry, found]
    rfl
  | some w =>
    have key (v : Nat) : x.key = (told x w v).key := by
      have kept : ((x.change w).versioned v).key = x.key :=
        (Write.key_change x w).trans (keyed _ w found)
      unfold told
      split <;> exact kept.symm
    rw [write_of_found found, entry, entry, found]
    by_cases idle : x.Idle w
    · rw [if_pos idle, Write.land_idle idle, found]
    · rw [if_neg idle, Tracker.get?_publish, if_pos (key _)]
      by_cases ends : x.Ends w
      · rw [told, if_pos ends, Write.land_ends idle ends]
        rfl
      · rw [told, if_neg ends, Write.land_stays idle ends]
        rfl

theorem get?_write_of_ne (keyed : a.workers.Keyed) (h : k ≠ x.key) :
    (a.write x).2.workers.get? k = a.workers.get? k := by
  cases found : a.workers.get? x.key with
  | none => rw [write_of_missing found]
  | some w => exact (outcome_write found (keyed _ w found)).2.2 k h

/-- What no write touches. `b` is what the write made of `a`. -/
structure Spared (x : Write) (a b : Api) : Prop where
  elsewhere : b.machineSets = a.machineSets ∧ b.machines = a.machines ∧ b.clusters = a.clusters
  others : ∀ k, k ≠ x.key → b.workers.get? k = a.workers.get? k
  /-- The spec stays, and all metadata but the finalizers, the annotations and the version. -/
  kept : ∀ w', b.workers.get? x.key = some w' → ∃ w, a.workers.get? x.key = some w ∧
    w'.spec = w.spec ∧
    w'.metadata =
      { w.metadata with
        finalizers := w'.metadata.finalizers
        annotations := w'.metadata.annotations
        resourceVersion := w'.metadata.resourceVersion }

/-- What a write leaves of a worker is the worker as it was, if the write has no effect, or as
the write changed it. -/
theorem left_write {w' : Worker} (found : a.workers.get? x.key = some w) (hw : w.key = x.key)
    (left : (a.write x).2.workers.get? x.key = some w') :
    x.Idle w ∧ w' = w ∨ ∃ v, w' = (x.change w).versioned v := by
  rw [workers_write] at left
  rcases Tracker.left_modify found hw left with ⟨same, rfl⟩ | ⟨rfl, -⟩
  · rw [Write.proposed_change] at same
    exact .inl ⟨same, rfl⟩
  · rw [Write.proposed_change, Write.numbered_change]
    exact .inr ⟨_, rfl⟩

/-- A worker that stands there after a write stood there before, and is the worker as it was
or as the write changed it. -/
theorem found_write (keyed : a.workers.Keyed) {w' : Worker}
    (found : (a.write x).2.workers.get? x.key = some w') :
    ∃ w, a.workers.get? x.key = some w ∧
      (w' = w ∨ ∃ v, w' = (x.change w).versioned v) := by
  obtain ⟨w, old⟩ := Tracker.found_of_modify (workers_write a x ▸ found)
  exact ⟨w, old, (left_write old (keyed _ w old) found).imp_left And.right⟩

theorem spared_write (keyed : a.workers.Keyed) (x : Write) : Spared x a (a.write x).2 where
  elsewhere := by
    rw [write_eq]
    exact ⟨rfl, rfl, rfl⟩
  others _ := get?_write_of_ne keyed
  kept w' found := by
    obtain ⟨w, old, rfl | ⟨v, rfl⟩⟩ := found_write keyed found
    · exact ⟨w', old, rfl, rfl⟩
    · refine ⟨w, old, Write.spec_change x w, ?_⟩
      show ({ (x.change w).metadata with resourceVersion := v } : Metadata) = _
      rw [Write.metadata_change]
      rfl

theorem state_write (keyed : a.workers.Keyed) (other : ∀ s, x ≠ .state x.key s) {w' : Worker}
    (found : (a.write x).2.workers.get? x.key = some w') :
    ∃ w, a.workers.get? x.key = some w ∧ w'.status.state = w.status.state := by
  obtain ⟨w, old, rfl | ⟨v, rfl⟩⟩ := found_write keyed found
  · exact ⟨w', old, rfl⟩
  · exact ⟨w, old, Write.state_change other w⟩

/-- A report changes the state and the version. -/
theorem get?_write_state (keyed : a.workers.Keyed) (s : WorkerState)
    (held : ∀ w, a.workers.get? k = some w → w.metadata.isDeleting = true →
      w.metadata.finalizers ≠ []) :
    ∃ v, (a.write (.state k s)).2.workers.get? k = (a.workers.get? k).map fun w =>
      { w with status.state := some s, metadata.resourceVersion := v } := by
  have landed : (a.write (.state k s)).2.workers.get? k =
      ((Write.state k s).land (a.entry k)).1 :=
    congrArg Prod.fst (entry_write keyed (.state k s))
  rw [landed, entry]
  cases found : a.workers.get? k with
  | none => exact ⟨0, rfl⟩
  | some w =>
    by_cases reported : (Write.state k s).Idle w
    · refine ⟨w.metadata.resourceVersion, ?_⟩
      rw [Write.land_idle reported, Option.map_some, ← Write.idle_state.mp reported]
    · refine ⟨a.workers.version + 1, ?_⟩
      rw [Write.land_stays reported (Write.not_ends_state (held w found))]
      rfl

/-- **The two loops write side by side.** Let `x` be any write to a worker but a report of its
state. It leaves the state alone, a report changes nothing but the state and the version, and
neither touches the spec, the rest of the metadata, or any other object. In either order the
two leave the same worker, version included, or none; only if `x` takes the worker away may
the counter of the tracker differ, which a record of an operation never does. -/
theorem writers_disjoint (keyed : a.workers.Keyed)
    (held : ∀ w, a.workers.get? k = some w → w.metadata.isDeleting = true →
      w.metadata.finalizers ≠ [])
    (hk : x.key = k) (other : ∀ s, x ≠ .state k s) (s : WorkerState) :
    (Spared x a (a.write x).2 ∧ ∀ w', (a.write x).2.workers.get? k = some w' →
        ∃ w, a.workers.get? k = some w ∧ w'.status.state = w.status.state) ∧
      (Spared (.state k s) a (a.write (.state k s)).2 ∧
        ∃ v, (a.write (.state k s)).2.workers.get? k = (a.workers.get? k).map fun w =>
          { w with status.state := some s, metadata.resourceVersion := v }) ∧
      (∀ j, ((a.write x).2.write (.state k s)).2.workers.get? j =
        ((a.write (.state k s)).2.write x).2.workers.get? j) ∧
      ((∃ t, x = .operationStatus k t) →
        ((a.write x).2.write (.state k s)).2.workers.version =
          ((a.write (.state k s)).2.write x).2.workers.version) := by
  subst hk
  refine ⟨⟨spared_write keyed x, fun w' => state_write keyed other⟩,
    ⟨spared_write keyed _, get?_write_state keyed s held⟩, ?_⟩
  have first : ((a.write x).2.write (.state x.key s)).2.entry x.key =
      (Write.state x.key s).land (x.land (a.entry x.key)) := by
    rw [← entry_write keyed]
    exact entry_write (keyed_write keyed x) (.state x.key s)
  have last : ((a.write (.state x.key s)).2.write x).2.entry x.key =
      x.land ((Write.state x.key s).land (a.entry x.key)) := by
    rw [entry_write (keyed_write keyed _)]
    exact congrArg x.land (entry_write keyed (.state x.key s))
  have agree : (x.land ((Write.state x.key s).land (a.entry x.key))).1 =
        ((Write.state x.key s).land (x.land (a.entry x.key))).1 ∧
      ((∃ t, x = .operationStatus x.key t) →
        (x.land ((Write.state x.key s).land (a.entry x.key))).2 =
          ((Write.state x.key s).land (x.land (a.entry x.key))).2) := by
    rw [entry]
    cases found : a.workers.get? x.key with
    | none => exact ⟨rfl, fun _ => rfl⟩
    | some w =>
      refine (Write.land_state_comm other (held w found)).imp id fun versions => ?_
      rintro ⟨t, record⟩
      refine versions fun ends => ?_
      rw [record] at ends
      exact held w found ends.1 ends.2
  rw [← first, ← last] at agree
  refine ⟨fun j => ?_, fun record => (agree.2 record).symm⟩
  by_cases hj : j = x.key
  · rw [hj]
    exact agree.1.symm
  · calc ((a.write x).2.write (.state x.key s)).2.workers.get? j
      _ = (a.write x).2.workers.get? j := get?_write_of_ne (keyed_write keyed x) hj
      _ = a.workers.get? j := get?_write_of_ne keyed hj
      _ = (a.write (.state x.key s)).2.workers.get? j :=
        (get?_write_of_ne (x := .state x.key s) keyed hj).symm
      _ = ((a.write (.state x.key s)).2.write x).2.workers.get? j :=
        (get?_write_of_ne (keyed_write keyed _) hj).symm

/-- A worker in deletion with one finalizer, on which nothing was reported yet. -/
def releasing : Api :=
  { Api.empty with
    workers := ((∅ : Tracker Worker).create default (Trial.Fixture.deleting default
      (Trial.Fixture.withFinalizer "held" (Trial.Fixture.worker "tenant" "pool" default)))).2 }

/-- A report and the removal of the last finalizer: the worker is gone in either order. A report
and a record: both have an effect, and the worker is at the third version in either order. -/
theorem writers_disjoint_releasing :
    let k : Key := ⟨"tenant", "pool"⟩
    let report := Write.state k default
    let release := Write.removeFinalizer k "held"
    let record := Write.operationStatus k ⟨.deleting, default, none, some 1, none⟩
    (((releasing.write release).2.write report).2.workers.get? k = none ∧
        ((releasing.write report).2.write release).2.workers.get? k = none) ∧
      ((releasing.write report).2.write record).2.workers.version = 3 ∧
        (((releasing.write record).2.write report).2.workers.get? k).map
          (·.metadata.resourceVersion) = some 3 := by
  intro k report release record
  have keyed : releasing.workers.Keyed := Tracker.keyed_empty.create default _
  have held : ∀ w, releasing.workers.get? k = some w → w.metadata.isDeleting = true →
      w.metadata.finalizers ≠ [] := by decide
  obtain ⟨-, -, gone, -⟩ := writers_disjoint keyed held (x := release) rfl nofun default
  obtain ⟨-, -, kept, versions⟩ := writers_disjoint keyed held (x := record) rfl nofun default
  refine ⟨⟨by decide, ?_⟩, ?_, ?_⟩
  · rw [← gone]
    decide
  · rw [← versions ⟨_, rfl⟩]
    decide
  · rw [kept]
    decide

end Api

end PoolControl
