import PoolControl.Proofs.Loop.Exclusive

/-! Retries.

When the actuator fails an attempt with an error worth a retry, the queue brings the key
back, and nothing else need have happened. `calls_of_failing` says which calls such
attempts make, one after the other, for any worker and any number of failures. A deletion
is tried again as a deletion, and so is plain reconciling. A migration or restoration is not:
its request was consumed by the first attempt, and the record of an unfinished migration or
restoration does not bring it back, so that all further attempts reconcile instead. -/
namespace PoolControl.ExclusiveApi

open Provision

/-- An actuator that fails every call. -/
def failing (reason : String) (c : Command) (b : ExclusiveApi) : Option Reply × ExclusiveApi :=
  (some (.error (.retryable reason)), { b with calls := b.calls ++ [c.call] })

/-- The failure of an attempt whose call failed. -/
def retried (reason : String) : Ending :=
  .result (.error (.retryable (ActuatorError.retryable reason).message))

/-- An attempt on a key for every error, with nothing between them. -/
def attempts (tell : Nat → Timestamp) (k : Key) :
    List String → ExclusiveApi → List Ending × ExclusiveApi
  | [], b => ([], b)
  | reason :: rest, b =>
    let (e, b) := (plan k).run (surroundings tell) (failing reason) b
    let (es, b) := attempts tell k rest b
    (e :: es, b)

/-- The call that a worker is due for once its request is consumed and an operation failed. -/
def again (w : Worker) : Call := if w.metadata.isDeleting then .delete else .reconcile

variable (tell : Nat → Timestamp) {k : Key} {b b' : ExclusiveApi} {w w' : Worker} {c : Cluster}
  {m : Call}

/-- After a failure a worker in deletion is due for deletion, and any other for reconciling. -/
theorem due_again (same : w'.metadata.isDeleting = w.metadata.isDeleting)
    (held : w.metadata.hasFinalizer finalizer = true → w'.metadata.hasFinalizer finalizer = true)
    (consumed : w'.metadata.request? = none) (here : w'.isMigrated = false)
    (hd : due w = some m) : due w' = some (again w) := by
  unfold due at hd ⊢
  rw [same, again]
  by_cases deleting : w.metadata.isDeleting = true
  · rw [if_pos deleting] at hd
    rw [if_pos deleting, if_pos deleting]
    split at hd
    · rename_i on
      rw [if_pos (held on)]
    · cases hd
  · rw [if_neg deleting, if_neg deleting, Worker.request?, consumed, here]
    rfl

/-- An attempt that fails makes the call that was due, and the worker is due again. -/
theorem attempt_of_due (hb : b.Shows k w)
    (hc : b.api.clusters.get? (Cluster.keyOf k.ns) = some c) (healthy : c.isFailed = false)
    (hd : due w = some m) (reason : String) :
    ∃ b' w', (plan k).run (surroundings tell) (failing reason) b = (retried reason, b') ∧
      b'.Shows k w' ∧ b'.api.clusters = b.api.clusters ∧ b'.calls = b.calls ++ [m] ∧
      due w' = some (again w) ∧ again w' = again w := by
  obtain ⟨b₁, w₁, h₁, passes₁, consumed, -⟩ := calls_due tell hb hc healthy hd
  have shows₁ : Shows { b₁ with calls := b₁.calls ++ [m] } k w₁ :=
    ⟨passes₁.shows.stored, passes₁.shows.key, passes₁.shows.stays⟩
  obtain ⟨b₂, w₂, h₂, passes₂, here⟩ :=
    passes_fail tell shows₁ (operationOf ⟨m, w, c⟩) (.retryable reason)
  have same : w₂.metadata.isDeleting = w.metadata.isDeleting := by
    rw [Metadata.isDeleting, passes₂.deleted, passes₁.deleted]
    rfl
  refine ⟨b₂, w₂, ?_, passes₂.shows, passes₂.clusters.trans passes₁.clusters, ?_, ?_, ?_⟩
  · rw [Plan.run_eq_advance, h₁]
    show Plan.run _ _ (fail w.key (operationOf ⟨m, w, c⟩) (.retryable reason))
      { b₁ with calls := b₁.calls ++ [m] } = _
    rw [hb.key, Plan.run_eq_advance, h₂]
    rfl
  · rw [passes₂.calls, ← passes₁.calls]
  · exact due_again same (fun on => passes₂.held (passes₁.held on)) (passes₂.request consumed)
      here hd
  · rw [again, same]
    rfl

theorem attempts_of_due (hb : b.Shows k w)
    (hc : b.api.clusters.get? (Cluster.keyOf k.ns) = some c) (healthy : c.isFailed = false)
    (hd : due w = some m) (reason : String) (reasons : List String) :
    (attempts tell k (reason :: reasons) b).1 = (reason :: reasons).map retried ∧
      (attempts tell k (reason :: reasons) b).2.calls =
        b.calls ++ m :: List.replicate reasons.length (again w) := by
  induction reasons generalizing b w m reason with
  | nil =>
    obtain ⟨b', w', h, _, _, calls, _⟩ := attempt_of_due tell hb hc healthy hd reason
    simp only [attempts, h]
    exact ⟨rfl, calls⟩
  | cons reason' rest ih =>
    obtain ⟨b', w', h, shows', clusters, calls, due', again'⟩ :=
      attempt_of_due tell hb hc healthy hd reason
    obtain ⟨endings, more⟩ := ih shows' (by rw [clusters]; exact hc) due' reason'
    rw [attempts, h]
    dsimp only
    refine ⟨congrArg (retried reason :: ·) endings, more.trans ?_⟩
    rw [calls, again', List.append_assoc]
    rfl

/-- Only deletion and plain reconciling are what a worker is due for again. -/
theorem again_eq_iff (hd : due w = some m) : again w = m ↔ m = .delete ∨ m = .reconcile := by
  unfold due at hd
  unfold again
  split at hd
  · rename_i deleting
    rw [if_pos deleting]
    split at hd
    · cases hd
      exact ⟨fun _ => .inl rfl, fun _ => rfl⟩
    · cases hd
  · rename_i present
    rw [if_neg present]
    constructor
    · exact fun e => .inr e.symm
    · rintro (rfl | rfl)
      · split at hd
        · cases hd
        · cases hd
        · split at hd <;> cases hd
      · rfl

/-- An attempt calls only what the worker is due for. -/
theorem due_of_called (hw : b.api.workers.get? w.key = some w)
    (hc : b.api.clusters.get? (Cluster.keyOf w.metadata.ns) = some c) (healthy : c.isFailed = false)
    {reason : String} (hm : (attempts tell w.key [reason] b).2.calls = b.calls ++ [m]) :
    due w = some m := by
  cases hd : due w with
  | none =>
    obtain ⟨r, b', h, calls⟩ := rests_of_not_due tell hw hc healthy hd
    rw [attempts, Plan.run_eq_advance, h] at hm
    have called : b'.calls = b.calls ++ [m] := hm
    rw [calls, List.self_eq_append_right] at called
    cases called
  | some m' =>
    obtain ⟨_, calls⟩ := attempts_of_due tell (shows_of_due hw hd) hc healthy hd reason []
    rw [calls] at hm
    exact congrArg some (List.singleton_inj.mp (List.append_cancel_left hm))

/-- **What failed is tried again exactly if it was deletion or plain reconciling.** Let an
attempt on a worker, whose cluster is there and not failed, call the actuator and fail. Every
further attempt that fails ends in the actuator's error, worth a retry, and calls for the
deletion of a worker in deletion and for the reconciling of any other. -/
theorem calls_of_failing (b : ExclusiveApi) (w : Worker) (c : Cluster) (m : Call)
    (reason : String) (reasons : List String) (hw : b.api.workers.get? w.key = some w)
    (hc : b.api.clusters.get? (Cluster.keyOf w.metadata.ns) = some c) (healthy : c.isFailed = false)
    (hm : (attempts tell w.key [reason] b).2.calls = b.calls ++ [m]) :
    (attempts tell w.key (reason :: reasons) b).1 = (reason :: reasons).map retried ∧
      (attempts tell w.key (reason :: reasons) b).2.calls =
        b.calls ++ m :: List.replicate reasons.length (again w) ∧
      (again w = m ↔ m = .delete ∨ m = .reconcile) := by
  have hd := due_of_called tell hw hc healthy hm
  obtain ⟨endings, calls⟩ :=
    attempts_of_due tell (shows_of_due hw hd) hc healthy hd reason reasons
  exact ⟨endings, calls, again_eq_iff hd⟩

/-- An API with a worker in deletion. -/
def leaving : ExclusiveApi :=
  founded <| Trial.Fixture.deleting default <|
    Trial.Fixture.withFinalizer finalizer (Trial.Fixture.worker "tenant" "pool" default)

/-- A deletion that failed is tried again. -/
theorem calls_of_failing_deletion :
    (attempts (fun _ => default) ⟨"tenant", "pool"⟩ ["busy", "down"] leaving).2.calls =
      [.delete, .delete] :=
  (calls_of_failing (fun _ => default) leaving
    ((leaving.api.workers.get? ⟨"tenant", "pool"⟩).get rfl) _ .delete "busy" ["down"] rfl rfl rfl
    rfl).2.1

/-- An API with a worker to be migrated. -/
def asking : ExclusiveApi :=
  founded (Trial.Fixture.requesting "migrate" (Trial.Fixture.worker "tenant" "pool" default))

/-- A migration that failed is followed by reconciling. -/
theorem reconciled_after_failed_migration :
    (attempts (fun _ => default) ⟨"tenant", "pool"⟩ ["busy", "down"] asking).2.calls =
      [.migrate, .reconcile] :=
  rfl

end PoolControl.ExclusiveApi
