import PoolControl.Proofs.Loop.Operation

/-! The protocol of the provisioning loop.

An attempt follows a protocol that can be told without its texts and times. It looks at
its worker first and remembers it. Before it calls the actuator it may consume the request,
put the finalizer on and record what it is about to do; it calls the actuator at most once,
with the worker as it was first seen; then it records the answer and, when the machines are
gone or handed over, takes the finalizer off. A write that fails ends it.

`Standing` is how far an attempt has got and what it knows. `Plan.Obeys` says that a plan
keeps to the protocol from a standing on, whatever its looks and writes are answered.
`obeys_plan` says that every attempt does. -/
namespace PoolControl

open Provision (finalizer)

/-- Whether a record is that of a migration that succeeded. -/
def OperationStatus.migrates (s : OperationStatus) : Bool :=
  s.operation.kind = .migrate && s.operation.succeeded

/-- How far an attempt has got. -/
inductive Standing
  | outset
  /-- The worker was seen and the actuator not called yet. `held` says that the finalizer is
  known to be on, `touched` that more was written than the request consumed. -/
  | about (w : Worker) (held touched : Bool)
  | calling (c : Command)
  /-- The actuator has answered. `recorded` says that the worker is known to be on record as
  migrated, `dropped` that the finalizer is known to be off. -/
  | answered (c : Command) (r : Reply) (recorded dropped : Bool)
  /-- There is nothing more to do. -/
  | ended

namespace Standing

/-- What an attempt knows after it looked its worker up. -/
def saw (stored : Option Worker) : Standing → Standing
  | outset =>
    match stored with
    | some w => about w (w.metadata.hasFinalizer finalizer) false
    | none => ended
  | answered c r recorded dropped => answered c r (recorded || stored.any Worker.isMigrated) dropped
  | a => a

/-- Which writes are allowed. -/
def Writes (k : Key) : Standing → Write → Prop
  | about .., .clearRequest k' => k' = k
  | about .., .addFinalizer k' f => k' = k ∧ f = finalizer
  | about .., .operationStatus k' _ => k' = k
  | answered .., .operationStatus k' _ => k' = k
  | answered c r _ _, .removeFinalizer k' f => k' = k ∧ f = finalizer ∧ releases c r = true
  | _, _ => False

/-- What an attempt knows after a write that succeeded. -/
def wrote : Standing → Write → Standing
  | about w _ _, .addFinalizer _ _ => about w true true
  | about w held _, .operationStatus _ _ => about w held true
  | answered c r _ dropped, .operationStatus _ s => answered c r s.migrates dropped
  | answered c r recorded _, .removeFinalizer _ _ => answered c r recorded true
  | a, _ => a

/-- Which calls are allowed. -/
def Calls (k : Key) : Standing → Command → Prop
  | about w held _, c =>
    c.worker = w ∧ w.key = k ∧
      match c.call with
      | .delete => w.metadata.hasFinalizer finalizer = true ∧ w.metadata.isDeleting = true
      | .reconcile => held = true ∧ w.metadata.isDeleting = false ∧ w.isMigrated = false
      | .restore => held = true
      | .migrate => True
  | _, _ => False

/-- Where an attempt may end. Before it called the actuator it has left the worker as it
was, and one that handed the machines over has put that on record and let go. -/
def Ends : Standing → Prop
  | about _ _ touched => touched = false
  | answered c r recorded dropped =>
    c.call = .migrate → releases c r = true → recorded = true ∧ dropped = true
  | ended => True
  | _ => False

end Standing

/-- A plan keeps to the protocol from a standing on. -/
def Plan.Obeys (k : Key) : Standing → Plan → Prop
  | a, .done _ => a.Ends
  | a, .look next =>
    ∀ caches : Caches, (∀ w, caches.workers.get? k = some w → w.key = k) →
      Obeys k (a.saw (caches.workers.get? k)) (next caches)
  | a, .clock next => ∀ now, Obeys k a (next now)
  | a, .write w next =>
    a.Writes k w ∧ Obeys k (a.wrote w) (next (.ok ())) ∧ ∀ e, Obeys k .ended (next (.error e))
  | a, .actuate c next => a.Calls k c ∧ ∀ r, Obeys k (.answered c r false false) (next r)

namespace Provision

variable {k : Key}

/-! ### Parts of an operation -/

theorem obeys_write {a : Standing} {w : Write} {next : Plan} (hw : a.Writes k w)
    (h : next.Obeys k (a.wrote w)) : (Plan.write w (Plan.unlessError next)).Obeys k a :=
  ⟨hw, h, fun _ => trivial⟩

/-- A record that is made before the call. -/
theorem obeys_record_about {w : Worker} {held touched : Bool} {s : OperationStatus} {next : Plan}
    (h : ∀ touched, next.Obeys k (.about w held touched)) :
    (record k s next).Obeys k (.about w held touched) := by
  intro caches _
  dsimp only
  split
  · split
    · exact obeys_write rfl (h true)
    · exact h touched
  · exact obeys_write rfl (h true)

/-- A record that the cache shows already tells of the same operation. -/
theorem operation_of_not_differs {current : Worker.Status} {s : OperationStatus}
    (h : differs current s = false) :
    ∃ o, current.lastOperation = some o ∧ o.kind = s.operation.kind ∧
      o.state = s.operation.state := by
  simp only [differs, Bool.or_eq_false_iff, Bool.not_eq_false'] at h
  have same := h.1.1.1.2
  cases ho : current.lastOperation with
  | none =>
    rw [ho] at same
    cases same
  | some o =>
    rw [ho] at same
    simp only [sameOperation, Bool.and_eq_true, decide_eq_true_eq] at same
    exact ⟨o, rfl, same.1⟩

theorem isMigrated_of_not_differs {w : Worker} {s : OperationStatus}
    (h : differs w.status s = false) : w.isMigrated = s.migrates := by
  obtain ⟨o, ho, kind, state⟩ := operation_of_not_differs h
  simp only [Worker.isMigrated, ho, OperationStatus.migrates, LastOperation.succeeded, kind, state]

/-- A record of what the actuator answered: if it tells of a migration that succeeded, that
is known afterwards. -/
theorem obeys_record_answered {c : Command} {r : Reply} {recorded dropped : Bool}
    {s : OperationStatus} {next : Plan}
    (h : ∀ recorded, (s.migrates = true → recorded = true) →
      next.Obeys k (.answered c r recorded dropped)) :
    (record k s next).Obeys k (.answered c r recorded dropped) := by
  intro caches _
  dsimp only
  split
  · rename_i w stored
    split
    · exact obeys_write rfl (h _ id)
    · rename_i same
      refine h _ fun hs => ?_
      have migrated := isMigrated_of_not_differs (eq_false_of_ne_true same)
      rw [stored, Option.any_some, migrated, hs, Bool.or_true]
  · exact obeys_write rfl (h _ id)

theorem obeys_ensureFinalizer {w : Worker} {touched : Bool} {next : Plan} (hk : w.key = k)
    (h : ∀ touched, next.Obeys k (.about w true touched)) :
    (ensureFinalizer w next).Obeys k
      (.about w (w.metadata.hasFinalizer finalizer) touched) := by
  unfold ensureFinalizer
  split
  · rename_i held
    rw [held]
    exact h touched
  · exact obeys_write ⟨hk, rfl⟩ (h true)

theorem obeys_start {w : Worker} {held touched : Bool} {kind : OperationKind} {phase : WorkerPhase}
    {description : String} {next : Plan} (hk : w.key = k)
    (h : ∀ touched, next.Obeys k (.about w held touched)) :
    (start w kind phase description next).Obeys k (.about w held touched) := by
  unfold start
  split
  · exact h touched
  · intro now
    rw [hk]
    exact obeys_record_about h

theorem obeys_fail {c : Command} {e : ActuatorError} {kind : OperationKind}
    {recorded dropped : Bool} :
    (fail k kind e).Obeys k (.answered c (.error e) recorded dropped) :=
  fun _ _ => obeys_record_answered fun _ _ _ released => by cases released

/-! ### Before and after a call -/

variable {w : Worker} {c : Command}

theorem obeys_prepare {touched : Bool} {next : Plan} (hk : c.worker.key = k)
    (h : ∀ held touched, (Idle.creates c.call = true → held = true) →
      next.Obeys k (.about c.worker held touched)) :
    (prepare c next).Obeys k
      (.about c.worker (c.worker.metadata.hasFinalizer finalizer) touched) := by
  unfold prepare
  split
  · exact obeys_ensureFinalizer hk fun _ =>
      obeys_start hk fun touched => h true touched fun _ => rfl
  · rename_i other
    exact obeys_start hk fun touched => h _ touched fun creates => absurd creates other

/-- The call that is due is allowed. -/
theorem calls_of_due {held touched : Bool} (hk : c.worker.key = k)
    (due : due c.worker = some c.call) (holds : Idle.creates c.call = true → held = true) :
    (Standing.about c.worker held touched).Calls k c := by
  refine ⟨rfl, hk, ?_⟩
  cases hc : c.call with
  | delete =>
    rw [hc] at due
    exact (delete_due_iff.mp due).symm
  | reconcile =>
    rw [hc] at due holds
    exact ⟨holds rfl, here_of_due due⟩
  | restore =>
    rw [hc] at holds
    exact holds rfl
  | migrate => trivial

theorem obeys_release {r : Reply} {recorded dropped : Bool} (released : releases c r = true)
    (known : c.call = .migrate → recorded = true) :
    (release c.worker.key).Obeys c.worker.key (.answered c r recorded dropped) :=
  obeys_write ⟨rfl, rfl, released⟩ fun migrate _ => ⟨known migrate, rfl⟩

theorem obeys_conclude (hk : c.worker.key = k) (r : Reply) :
    (conclude c r).Obeys k (.answered c r false false) := by
  subst hk
  cases r with
  | ok data =>
    rw [conclude]
    split
    · rename_i delete
      refine obeys_release (by rw [releases, delete]; rfl) fun migrate => ?_
      cases delete.symm.trans migrate
    · intro now
      refine obeys_record_answered fun recorded known => ?_
      split
      · rename_i migrate
        refine obeys_release (by rw [releases, migrate]; rfl) fun _ => known ?_
        simp [outcome, migrate, OperationStatus.migrates, LastOperation.succeeded]
      · rename_i other
        exact fun migrate => absurd migrate other
  | error e => exact obeys_fail

theorem obeys_operate {c : Cluster} (hk : w.key = k) :
    (operate w c).Obeys k (.about w (w.metadata.hasFinalizer finalizer) false) := by
  cases hd : due w with
  | none =>
    rw [operate_of_not_due hd]
    rfl
  | some m =>
    rw [operate_of_due hd]
    exact obeys_prepare (c := ⟨m, w, c⟩) hk fun held touched holds =>
      ⟨calls_of_due hk hd holds, obeys_conclude (c := ⟨m, w, c⟩) hk⟩

/-- **Every attempt keeps to the protocol.** -/
theorem obeys_plan (k : Key) : (plan k).Obeys k .outset := by
  intro caches keyed
  dsimp only
  split
  · rename_i missing
    rw [missing]
    trivial
  · rename_i w found
    rw [found]
    intro caches' _
    dsimp only
    split
    · rfl
    · split
      · rfl
      · unfold consumeRequest
        split
        · exact obeys_write rfl (obeys_operate (keyed w found))
        · exact obeys_operate (keyed w found)

end Provision

end PoolControl
