import PoolControl.Proofs.Loop.Protocol

/-! What an attempt leaves of an error that is on record.

A worker `errs` if an error is on record for it that calls for a retry. An attempt that operates
mends it: it ends with something else on record, or itself in an error that calls for a retry, or
the actuator panics, which does so too (`mends_operate`). Only an attempt that finds the cluster
failed ends well and leaves the error as it was. -/
namespace PoolControl

open Provision (finalizer)

/-- Whether a worker that is not in deletion has an error on record that calls for a retry. -/
def Worker.errs (w : Worker) : Bool :=
  !w.metadata.isDeleting && w.status.lastOperation.any (·.state = .error)

theorem Worker.errs_iff {w : Worker} (present : w.metadata.isDeleting = false) :
    w.errs = true ↔ ∃ o, w.status.lastOperation = some o ∧ o.state = .error := by
  simp only [errs, present, Bool.not_false, Bool.true_and, Option.any_eq_true, decide_eq_true_eq]

theorem Worker.present_of_errs {w : Worker} (h : w.errs = true) : w.metadata.isDeleting = false :=
  (Bool.not_eq_true' _).mp (Bool.and_eq_true_iff.mp h).1

/-- Whether the worker is known not to err after a write, given whether it was before. -/
def Write.mends (known : Bool) : Write → Bool
  | .operationStatus _ s => s.operation.state ≠ .error
  | _ => known

/-- Whether the worker under `k` is known not to err when an attempt ends, unless it ends in an
error that calls for a retry. An attempt may or may not know it to begin with. -/
def Plan.Mends (k : Key) : Bool → Plan → Prop
  | known, .done r => known = true ∨ ∃ reason, r = .error (.retryable reason)
  | known, .look next =>
    ∀ caches : Caches, Mends k (known || !(caches.workers.get? k).any Worker.errs) (next caches)
  | known, .clock next => ∀ now, Mends k known (next now)
  | known, .write w next =>
    w.key = k ∧ Mends k (w.mends known) (next (.ok ())) ∧
      ∀ e, (∀ kind k', e ≠ .alreadyExists kind k') → Mends k known (next (.error e))
  | known, .actuate _ next => ∀ r, Mends k known (next r)

theorem Write.mends_mono {known known' : Bool} (h : known = true → known' = true) (x : Write) :
    x.mends known = true → x.mends known' = true := by
  cases x with
  | operationStatus => exact id
  | _ => exact h

namespace Provision

variable {k : Key} {w : Worker} {c : Cluster} {next : Plan} {known known' : Bool}

/-- The more is known to begin with, the better. -/
theorem mends_mono {p : Plan} (hp : p.Mends k known) (h : known = true → known' = true) :
    p.Mends k known' := by
  induction p generalizing known known' with
  | done r => exact hp.imp_left h
  | look next ih =>
    refine fun caches => ih caches (hp caches) ?_
    simp only [Bool.or_eq_true]
    exact Or.imp_left h
  | clock next ih => exact fun now => ih now (hp now) h
  | write x next ih =>
    obtain ⟨key, done, failed⟩ := hp
    exact ⟨key, ih _ done (x.mends_mono h), fun e he => ih _ (failed e he) h⟩
  | actuate c next ih => exact fun r => ih r (hp r) h

/-! ### Parts of an operation -/

/-- A write that fails for want of the worker or of the API ends in an error. -/
theorem mends_write {x : Write} (hk : x.key = k) (h : next.Mends k (x.mends known)) :
    (Plan.write x (Plan.unlessError next)).Mends k known := by
  refine ⟨hk, h, fun e he => .inr ?_⟩
  cases e with
  | alreadyExists kind k' => exact absurd rfl (he kind k')
  | _ => exact ⟨_, rfl⟩

/-- Once something else is on record the worker does not err. -/
theorem mends_record {s : OperationStatus}
    (h : next.Mends k (decide (s.operation.state ≠ .error))) :
    (record k s next).Mends k known := by
  intro caches
  dsimp only
  cases found : caches.workers.get? k with
  | none => exact mends_write rfl h
  | some w =>
    dsimp only
    split
    · exact mends_write rfl h
    · rename_i same
      obtain ⟨o, ho, -, state⟩ := operation_of_not_differs (eq_false_of_ne_true same)
      refine mends_mono h fun other => ?_
      have other : o.state ≠ .error := by
        rw [state]
        exact of_decide_eq_true other
      simp [Worker.errs, ho, other]

theorem mends_ensureFinalizer (hk : w.key = k) (h : next.Mends k known) :
    (ensureFinalizer w next).Mends k known := by
  unfold ensureFinalizer
  split
  · exact h
  · exact mends_write hk h

/-- A retry goes on with what it found on record. -/
theorem mends_start {kind : OperationKind} {phase : WorkerPhase} {description : String}
    (hk : w.key = k) (h : next.Mends k known) :
    (start w kind phase description next).Mends k known := by
  unfold start
  split
  · exact h
  · intro now
    rw [hk]
    exact mends_record (mends_mono h fun _ => rfl)

/-- An error of the actuator calls for a retry, or is put on record as one that does not. -/
theorem mends_fail {kind : OperationKind} {e : ActuatorError} (hk : w.key = k) :
    (fail w.key kind e).Mends k known := by
  intro now later
  rw [hk]
  refine mends_record ?_
  cases e with
  | retryable reason => exact .inr ⟨_, rfl⟩
  | terminal reason => exact .inl rfl

theorem mends_consumeRequest (h : next.Mends k known) :
    (consumeRequest k w next).Mends k known := by
  unfold consumeRequest
  split
  · exact mends_write rfl h
  · exact h

/-! ### Operations -/

variable {m : Command}

theorem mends_prepare (hk : m.worker.key = k) (h : next.Mends k known) :
    (prepare m next).Mends k known := by
  unfold prepare
  split
  · exact mends_ensureFinalizer hk (mends_start hk h)
  · exact mends_start hk h

/-- A deletion that succeeds leaves the record as it was. -/
theorem mends_conclude (hk : m.worker.key = k) (deleted : m.call = .delete → known = true)
    (r : Reply) : (conclude m r).Mends k known := by
  cases r with
  | ok data =>
    rw [conclude]
    split
    · rename_i delete
      exact mends_write hk (.inl (deleted delete))
    · intro now
      rw [hk]
      have settled : (outcome m (.ok data)).operation.state ≠ .error := by
        rw [outcome]
        split <;> rintro ⟨⟩
      refine mends_record ?_
      split
      · exact mends_write rfl (.inl (decide_eq_true settled))
      · exact .inl (decide_eq_true settled)
  | error e => exact mends_fail hk

theorem errs_of_isMigrated (h : w.isMigrated = true) : w.errs = false := by
  unfold Worker.isMigrated at h
  unfold Worker.errs
  cases ho : w.status.lastOperation with
  | none => exact Bool.and_false _
  | some o =>
    rw [ho] at h
    have succeeded : o.state = .succeeded := of_decide_eq_true (Bool.and_eq_true_iff.mp h).2
    rw [Option.any_some, succeeded]
    exact Bool.and_false _

theorem errs_of_isDeleting (h : w.metadata.isDeleting = true) : w.errs = false := by
  rw [Worker.errs, h]
  rfl

/-- **An operation mends the worker that it is for**, or ends in an error that calls for a
retry. -/
theorem mends_operate (hk : w.key = k) : (operate w c).Mends k (!w.errs) := by
  cases hd : due w with
  | none =>
    rw [operate_of_not_due hd, (away_of_not_due hd).elim errs_of_isDeleting errs_of_isMigrated]
    exact .inl rfl
  | some m =>
    rw [operate_of_due hd]
    refine mends_prepare (m := ⟨m, w, c⟩) hk (mends_conclude (m := ⟨m, w, c⟩) hk ?_)
    rintro rfl
    rw [errs_of_isDeleting (delete_due_iff.mp hd).1]
    rfl

end Provision

end PoolControl
