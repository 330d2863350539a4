import PoolControl.Proofs.Loop.Outcome
import PoolControl.Proofs.Loop.Retry

/-! Retries that write nothing.

A worker whose backend stays down is tried again and again, and must not change for it: each
change would be told to every watcher. Three shortcuts see to that. The finalizer is on already,
the operation that is tried again counts as a retry of the one on record, and the error that
comes back is the one that is shown. `Stalled` is the state in which all three are open, an
attempt that fails once more keeps it (`Stalled.attempt`), and `writes_nothing` follows by
induction over the attempts.

The kind of the operation is told from the record each time, and it comes out as it was: what
failed to be created is still to be created, and anything else is reconciled. -/
namespace PoolControl.ExclusiveApi

open Provision

/-- A worker whose call `m` failed for a reason, and is due again. -/
structure Stalled (b : ExclusiveApi) (k : Key) (w : Worker) (c : Cluster) (m : Call)
    (reason : String) :
    Prop where
  stored : b.api.workers.get? k = some w
  key : w.key = k
  cluster : b.api.clusters.get? (Cluster.keyOf k.ns) = some c
  healthy : c.isFailed = false
  consumed : w.metadata.request? = none
  held : w.metadata.hasFinalizer finalizer = true
  call : m = again w
  failed : w.status.Shows (outcome ⟨m, w, c⟩ (.error (.retryable reason)))

variable (tell : Nat → Timestamp) {k : Key} {b b₀ b₁ b₂ b' : ExclusiveApi} {w w' : Worker}
  {c c' : Cluster}
  {m : Call} {reason : String}

namespace Stalled

/-- The operation is on record as one to be tried again. -/
theorem operation (h : b.Stalled k w c m reason) :
    ∃ o, w.status.lastOperation = some o ∧ o.kind = operationOf ⟨m, w, c⟩ ∧ o.state = .error :=
  h.failed.operation

theorem isRetry (h : b.Stalled k w c m reason) :
    Provision.isRetry w.status (operationOf ⟨m, w, c⟩) = true := by
  obtain ⟨o, ho, kind, state⟩ := h.operation
  simp [Provision.isRetry, ho, kind, state]

theorem due (h : b.Stalled k w c m reason) : Provision.due w = some m := by
  obtain ⟨o, ho, -, state⟩ := h.operation
  have here : w.isMigrated = false := by
    simp [Worker.isMigrated, ho, LastOperation.succeeded, state]
  rw [h.call, again, Provision.due, Worker.request?, h.consumed, here]
  simp only [h.held]
  split <;> rfl

/-- Nothing is written before the call. -/
theorem prepares (h : b.Stalled k w c m reason) :
    (plan k).advance (surroundings tell) b =
      (.actuate ⟨m, w, c⟩ (conclude ⟨m, w, c⟩), b) := by
  have unasked : w.metadata.request?.isSome ≠ true := by
    rw [h.consumed]
    exact Bool.false_ne_true
  have begun (next : Plan) : start w (operationOf ⟨m, w, c⟩) (announced ⟨m, w, c⟩).phase
      (announced ⟨m, w, c⟩).operation.description next = next := if_pos h.isRetry
  rw [advance_plan tell h.stored h.cluster h.healthy, consumeRequest, if_neg unasked, operate_eq,
    h.due]
  simp only [perform, prepare, begun, ensureFinalizer, h.held]
  simp [Plan.advance]

/-- Nothing is written after the call has failed again. -/
theorem concludes (h : b.Stalled k w c m reason) :
    (conclude ⟨m, w, c⟩ (.error (.retryable reason))).advance (surroundings tell) b =
      (.done (.error (.retryable (ActuatorError.retryable reason).message)),
        { b with readings := b.readings + 1 + 1 }) := by
  have shown (now later : Timestamp) : differs w.status
      ⟨.failed, ⟨operationOf ⟨m, w, c⟩, .error, (ActuatorError.retryable reason).message, now⟩,
        some ⟨(ActuatorError.retryable reason).message, true, later⟩, none, none⟩ = false :=
    differs_eq_false_iff.mpr ⟨h.failed, rfl, fun _ => rfl, nofun⟩
  have cached : b.api.caches.workers.get? k = some w := h.stored
  show (fail w.key (operationOf ⟨m, w, c⟩) (.retryable reason)).advance (surroundings tell) b = _
  rw [h.key]
  simp only [fail, Plan.advance, record, surroundings, cached, ActuatorError.isRetryable, if_true,
    shown]
  simp [Plan.advance]

/-- **An attempt that fails again leaves everything as it was.** -/
theorem attempt (h : b.Stalled k w c m reason) :
    ∃ b', (plan k).run (surroundings tell) (failing reason) b = (retried reason, b') ∧
      b'.api = b.api ∧ b'.calls = b.calls ++ [m] ∧ b'.Stalled k w c m reason := by
  have called : Stalled { b with calls := b.calls ++ [m] } k w c m reason :=
    ⟨h.stored, h.key, h.cluster, h.healthy, h.consumed, h.held, h.call, h.failed⟩
  refine ⟨{ b with readings := b.readings + 1 + 1, calls := b.calls ++ [m] }, ?_, rfl, rfl,
    h.stored, h.key, h.cluster, h.healthy, h.consumed, h.held, h.call, h.failed⟩
  rw [Plan.run_eq_advance, h.prepares tell]
  simp only [failing]
  rw [Plan.run_eq_advance, called.concludes tell]
  rfl

theorem attempts (h : b.Stalled k w c m reason) (n : Nat) :
    (ExclusiveApi.attempts tell k (.replicate n reason) b).1 = .replicate n (retried reason) ∧
      (ExclusiveApi.attempts tell k (.replicate n reason) b).2.calls = b.calls ++ .replicate n m ∧
      (ExclusiveApi.attempts tell k (.replicate n reason) b).2.api = b.api := by
  induction n generalizing b with
  | zero => simp [ExclusiveApi.attempts]
  | succ n ih =>
    obtain ⟨b', ran, api, calls, stalled⟩ := h.attempt tell
    obtain ⟨endings, more, kept⟩ := ih stalled
    simp only [List.replicate_succ, ExclusiveApi.attempts, ran, endings, more, kept, api, calls]
    simp

end Stalled

/-! ### After the first failure -/

/-- What failed to be created is still to be created, and what failed to be reconciled to be
reconciled. -/
theorem plainKind_of_failed {t : Worker.Status} {o : LastOperation}
    (ho : t.lastOperation = some o) (kind : o.kind = .create ∨ o.kind = .reconcile)
    (state : o.state = .error) : plainKind t = o.kind := by
  rcases kind with kind | kind <;> simp [plainKind, ho, kind, LastOperation.succeeded, state]

/-- What an attempt comes to, with the API's own stores as caches. -/
theorem call_of_plan (keyed : b.api.workers.Keyed) {command : Command} {next : Reply → Plan}
    (reached : (plan k).advance (surroundings tell) b = (.actuate command next, b')) :
    command.worker.key = k ∧ next = conclude command := by
  rw [plan_eq, advance_look] at reached
  cases found : b.api.caches.workers.get? k with
  | none =>
    rw [found] at reached
    cases reached
  | some u =>
    rw [found] at reached
    obtain ⟨rfl, -, conclusion⟩ := (leads_attend (keyed k u found)).call reached
    exact ⟨keyed k _ found, conclusion⟩

/-- The operation that is due again is the one that failed. -/
theorem operationOf_again {command : Command}
    (which : command.call = .reconcile ∨ command.call = .delete)
    (failed : w.status.Shows (outcome command (.error (.retryable reason)))) :
    operationOf ⟨command.call, w, c⟩ = operationOf command := by
  obtain ⟨o, ho, kind, state⟩ := failed.operation
  have kind : o.kind = operationOf command := kind
  rcases which with call | call
  · simp only [operationOf, call] at kind ⊢
    rw [← kind]
    apply plainKind_of_failed ho _ state
    rw [kind]
    exact plainKind_cases _
  · simp only [operationOf, call]

/-- An attempt that failed leaves the worker stalled, if nothing else is to be done for it. -/
theorem stalled_of_failed (keyed₀ : b₀.api.workers.Keyed) (keyed₂ : b₂.api.workers.Keyed)
    {command : Command} {next : Reply → Plan} {stop : Plan.Stop}
    (reached : (plan k).advance (surroundings tell) b₀ = (.actuate command next, b₁))
    (ended : (next (.error (.retryable reason))).advance (surroundings tell) b₂ = (stop, b))
    (hw : b.api.workers.get? k = some w) (hc : b.api.clusters.get? (Cluster.keyOf k.ns) = some c)
    (healthy : c.isFailed = false) (consumed : w.metadata.request? = none)
    (held : w.metadata.hasFinalizer finalizer = true)
    (which : command.call = .reconcile ∧ w.metadata.isDeleting = false ∨
      command.call = .delete ∧ w.metadata.isDeleting = true) :
    b.Stalled k w c command.call reason := by
  obtain ⟨hk, rfl⟩ := call_of_plan tell keyed₀ reached
  have key : w.key = k := by
    have leads := (only_conclude command (.error (.retryable reason))).leads
      (Q := fun _ _ => False) (callsAtMost_conclude _ _)
    refine (keeps_of_leads tell (R := fun _ => True) leads (fun x hx => ⟨?_, fun _ _ => trivial⟩)
      (fun u found => ⟨keyed₂ k u found, trivial⟩) ended w hw).1
    cases hx <;> exact hk
  have failed : w.status.Shows (outcome command (.error (.retryable reason))) := by
    rw [conclude, hk] at ended
    obtain ⟨u, -, leaves⟩ := leaves_of_fail tell (keyed₂ k) ended hw
    exact leaves.shows
  have call : command.call = again w := by
    rcases which with ⟨call, present⟩ | ⟨call, deleting⟩
    · simp [call, again, present]
    · simp [call, again, deleting]
  have kind := operationOf_again (c := c) (which.imp And.left And.left) failed
  refine ⟨hw, key, hc, healthy, consumed, held, call, ?_⟩
  rw [outcome, kind]
  exact failed

/-- **Retries of what failed write nothing.** Let an attempt come to a call and the actuator fail
with an error worth a retry, whatever was done to the API during the call. It leaves a worker
without a request and with the finalizer, whose cluster is there and not failed; the call was
one to reconcile and the worker is not in deletion, or one to delete and it is. Then any number
of further attempts that fail in the same way make the same call once each and end in the same
error, and the API is as it was, with all versions and all feeds. -/
theorem writes_nothing (keyed₀ : b₀.api.workers.Keyed) (keyed₂ : b₂.api.workers.Keyed)
    {command : Command} {next : Reply → Plan} {stop : Plan.Stop}
    (reached : (plan k).advance (surroundings tell) b₀ = (.actuate command next, b₁))
    (ended : (next (.error (.retryable reason))).advance (surroundings tell) b₂ = (stop, b))
    (hw : b.api.workers.get? k = some w) (hc : b.api.clusters.get? (Cluster.keyOf k.ns) = some c)
    (healthy : c.isFailed = false) (consumed : w.metadata.request? = none)
    (held : w.metadata.hasFinalizer finalizer = true)
    (which : command.call = .reconcile ∧ w.metadata.isDeleting = false ∨
      command.call = .delete ∧ w.metadata.isDeleting = true) (n : Nat) :
    let after := attempts tell k (.replicate n reason) b
    after.1 = .replicate n (retried reason) ∧
      after.2.calls = b.calls ++ .replicate n command.call ∧ after.2.api = b.api :=
  (stalled_of_failed tell keyed₀ keyed₂ reached ended hw hc healthy consumed held which).attempts
    tell n

/-- A deletion that fails three times. -/
theorem writes_nothing_deletion :
    ∃ (c : Command) (next : Reply → Plan) (b₁ b : ExclusiveApi),
      (plan ⟨"tenant", "pool"⟩).advance (surroundings fun _ => default) leaving =
        (.actuate c next, b₁) ∧ c.call = .delete ∧
      (next (.error (.retryable "busy"))).advance (surroundings fun _ => default) b₁ =
        (.done (.error (.retryable "retryable actuator error: busy")), b) ∧
      (attempts (fun _ => default) ⟨"tenant", "pool"⟩ ["busy", "busy"] b).2.api = b.api := by
  have keyed : leaving.api.workers.Keyed := Tracker.keyed_empty.create default _
  have run : ∃ c next b₁ b w cluster,
      (plan ⟨"tenant", "pool"⟩).advance (surroundings fun _ => default) leaving =
        (.actuate c next, b₁) ∧ c.call = .delete ∧ b₁.api.workers.Keyed ∧
      (next (.error (.retryable "busy"))).advance (surroundings fun _ => default) b₁ =
        (.done (.error (.retryable "retryable actuator error: busy")), b) ∧
      b.api.workers.get? ⟨"tenant", "pool"⟩ = some w ∧
      b.api.clusters.get? (Cluster.keyOf "tenant") = some cluster ∧ cluster.isFailed = false ∧
      w.metadata.request? = none ∧ w.metadata.hasFinalizer finalizer = true ∧
      w.metadata.isDeleting = true :=
    ⟨_, _, _, _, _, _, rfl, rfl, Api.keyed_write keyed _, rfl, rfl, rfl, rfl, rfl, rfl, rfl⟩
  obtain ⟨c, next, b₁, b, w, cluster, reached, call, keyed₁, ended, stored, there, healthy,
    consumed, held, deleting⟩ := run
  obtain ⟨-, -, kept⟩ := writes_nothing (fun _ => default) keyed keyed₁ reached ended stored there
    healthy consumed held (.inr ⟨call, deleting⟩) 2
  exact ⟨c, next, b₁, b, reached, call, ended, kept⟩

end PoolControl.ExclusiveApi
