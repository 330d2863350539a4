import PoolControl.Proofs.Loop.Exclusive

/-! Requests and lost writes.

In an `Outage` some writes arrive, one is lost because the API cannot be reached, and
nobody else touches the worker. If the write is lost before the actuator is called the attempt
ends with an error worth a retry, and makes no call. `calls_again_iff` says when the next
attempt, undisturbed, makes the call that the first one was to make. A request is consumed
in a write of its own before anything else is put on record. If that write is the one that is
lost the request stands; if a later one is, a migration or a restoration is forgotten, and
the next attempt finds a worker without a request. -/
namespace PoolControl

open Provision

namespace ExclusiveApi

variable (tell : Nat → Timestamp) {k : Key} {b b' : ExclusiveApi} {w w' v : Worker} {c : Cluster}
  {m : Call} {n : Nat}

/-! ### Undisturbed attempts -/

/-- An actuator that does what it is called for and answers with some data. -/
def succeeding (data : Command → Option Json) (c : Command) (b : ExclusiveApi) :
    Option Reply × ExclusiveApi :=
  (some (.ok (data c)), { b with calls := b.calls ++ [c.call] })

theorem calls_run (act : Command → ExclusiveApi → Option Reply × ExclusiveApi) {p : Plan}
    (h : p.CallsAtMost 0) (b : ExclusiveApi) :
    (p.run (surroundings tell) act b).2.calls = b.calls := by
  induction p generalizing b with
  | done _ => rfl
  | look _ ih => exact ih _ (h _) b
  | clock _ ih => exact ih _ (h _) _
  | write _ _ ih => exact ih _ (h _) _
  | actuate _ _ => cases h

/-- **An attempt that nobody disturbs makes the call that the worker is due for** and no
other. -/
theorem calls_of_due (data : Command → Option Json) (hw : b.api.workers.get? k = some w)
    (hk : w.key = k) (hc : b.api.clusters.get? (Cluster.keyOf k.ns) = some c)
    (healthy : c.isFailed = false) :
    ((plan k).run (surroundings tell) (succeeding data) b).2.calls = b.calls ++ (due w).toList := by
  subst hk
  rw [Plan.run_eq_advance]
  cases hd : due w with
  | none =>
    obtain ⟨r, b', h, calls⟩ := rests_of_not_due tell hw hc healthy hd
    rw [h]
    exact calls.trans (List.append_nil _).symm
  | some m =>
    obtain ⟨b', w', h, passes, -⟩ := calls_due tell (shows_of_due hw hd) hc healthy hd
    rw [h]
    refine (calls_run tell _ (callsAtMost_conclude ⟨m, w, c⟩ (.ok (data ⟨m, w, c⟩))) _).trans ?_
    show b'.calls ++ [m] = _
    rw [passes.calls]
    rfl

end ExclusiveApi

/-! ### Outages -/

/-- An API for one attempt that may lose a write. -/
structure Outage where
  exclusive : ExclusiveApi
  /-- How many writes arrive before one is lost, if one is still to be lost. -/
  left : Option Nat

namespace Outage

open ExclusiveApi (Shows Passes)

/-- The surroundings of an attempt that may lose a write. -/
def surroundings (tell : Nat → Timestamp) (reason : String) : Surroundings Outage where
  look o := o.exclusive.api.caches
  clock o := (tell o.exclusive.readings, { o with
    exclusive := { o.exclusive with readings := o.exclusive.readings + 1 } })
  write x o :=
    match o.left with
    | some 0 => (.error (.unavailable reason), { o with left := none })
    | left =>
      ((o.exclusive.api.write x).1,
        ⟨{ o.exclusive with api := (o.exclusive.api.write x).2 }, left.map (· - 1)⟩)

/-- If a write is lost on the way to a stop, the attempt ends there. The worker has passed
until then, with its record as it was. -/
def Loses (reason : String) (k : Key) (b : ExclusiveApi) (w : Worker) (out : Plan.Stop × Outage) :
    Prop :=
  out.2.left = none → ∃ b' w',
    out = (.done (.error (.retryable (ApiError.unavailable reason).message)), ⟨b', none⟩) ∧
      Passes k b w b' w' ∧ w'.isMigrated = w.isMigrated

variable (tell : Nat → Timestamp) {reason : String} {k : Key} {b b' : ExclusiveApi}
  {w w' v : Worker}
  {c : Cluster} {m : Call} {n : Nat}

theorem Loses.after {out : Plan.Stop × Outage} (h : Loses reason k b' w' out)
    (passes : Passes k b w b' w') (same : w'.isMigrated = w.isMigrated) :
    Loses reason k b w out := by
  intro lost
  obtain ⟨b'', w'', he, passes', same'⟩ := h lost
  exact ⟨b'', w'', he, passes.trans passes', same'.trans same⟩

theorem loses_actuate (c : Command) (next : Reply → Plan) :
    Loses reason k b w ((Plan.actuate c next).advance (surroundings tell reason) ⟨b', some n⟩) := by
  intro lost
  cases lost

theorem loses_done (r : Result) :
    Loses reason k b w ((Plan.done r).advance (surroundings tell reason) ⟨b, some n⟩) := by
  intro lost
  cases lost

/-- A write is lost, or it lands and a later one may be lost. -/
theorem loses_write (hb : b.Shows k w) {x : Write} (hk : x.key = k)
    (hx : ∀ k f, x ≠ .removeFinalizer k f) {next : Plan}
    (h : ∀ (b' : ExclusiveApi) (w' : Worker) (n : Nat), Passes k b w b' w' →
      Tracker.Follows w (x.change w) w' →
      Loses reason k b w (next.advance (surroundings tell reason) ⟨b', some n⟩)) :
    Loses reason k b w
      ((Plan.write x (Plan.unlessError next)).advance (surroundings tell reason) ⟨b, some n⟩) := by
  cases n with
  | zero => exact fun _ => ⟨b, w, rfl, .refl hb, rfl⟩
  | succ n =>
    obtain ⟨ok, w', passes, follows⟩ := hb.write hk hx
    show Loses _ _ _ _ ((Plan.unlessError next (b.api.write x).1).advance _
      ⟨{ b with api := (b.api.write x).2 }, some n⟩)
    rw [ok]
    exact h _ w' n passes follows

/-- The record before a call is the last write on the way. -/
theorem loses_record (hb : b.Shows k w) (s : OperationStatus) (c : Command) (next : Reply → Plan) :
    Loses reason k b w
      ((record k s (.actuate c next)).advance (surroundings tell reason) ⟨b, some n⟩) := by
  have looked : (record k s (.actuate c next)).advance (surroundings tell reason) ⟨b, some n⟩ =
      (if differs w.status s then .write (.operationStatus k s) (Plan.unlessError (.actuate c next))
        else .actuate c next : Plan).advance (surroundings tell reason) ⟨b, some n⟩ := by
    have cached : ((surroundings tell reason).look ⟨b, some n⟩).workers.get? k = some w := hb.cached
    rw [record, Plan.advance, cached]
  rw [looked]
  split
  -- Nothing is written between the record and the call, so no later loss comes before it.
  · exact loses_write tell hb (x := .operationStatus k s) rfl (fun _ _ he => by cases he)
      fun _ _ _ _ _ => loses_actuate tell c next
  · exact loses_actuate tell c next

theorem loses_start (hb : b.Shows k w) (hv : v.key = k) (kind : OperationKind)
    (phase : WorkerPhase) (description : String) (c : Command) (next : Reply → Plan) :
    Loses reason k b w ((start v kind phase description (.actuate c next)).advance
      (surroundings tell reason) ⟨b, some n⟩) := by
  unfold start
  split
  · exact loses_actuate tell c next
  · have read := hb.read (b.readings + 1)
    rw [hv]
    exact (loses_record tell read.shows _ c next).after read rfl

theorem loses_prepare (hb : b.Shows k w) {c : Command} (hc : c.worker.key = k)
    (next : Reply → Plan) :
    Loses reason k b w
      ((prepare c (.actuate c next)).advance (surroundings tell reason) ⟨b, some n⟩) := by
  unfold prepare
  split
  · unfold ensureFinalizer
    split
    · exact loses_start tell hb hc _ _ _ c next
    · rw [hc]
      refine loses_write tell hb (x := .addFinalizer k finalizer) rfl
        (fun _ _ he => by cases he) ?_
      intro b' w' n passes follows
      refine (loses_start tell passes.shows hc _ _ _ c next).after passes ?_
      rw [follows.isMigrated]
      simp only [Write.change]
      split <;> rfl
  · exact loses_start tell hb hc _ _ _ c next

/-- An operation that loses a write leaves the record as it was. -/
theorem loses_operate (hb : b.Shows k w) (hv : v.key = k) :
    Loses reason k b w ((operate v c).advance (surroundings tell reason) ⟨b, some n⟩) := by
  cases hd : due v with
  | none =>
    rw [operate_of_not_due hd]
    exact loses_done tell _
  | some m =>
    rw [operate_of_due hd]
    exact loses_prepare tell hb (c := ⟨m, v, c⟩) hv _

/-- What is due after a loss that the request was consumed before. -/
theorem due_after {k : Key} (passes : Passes k b w b' w') (consumed : w'.metadata.request? = none)
    (same : w'.isMigrated = w.isMigrated) (hd : due w = some m) :
    due w' = due w ↔ w.metadata.isDeleting = true ∨
      w.request? ≠ some .migrate ∧ w.request? ≠ some .restore := by
  have deleting : w'.metadata.isDeleting = w.metadata.isDeleting :=
    congrArg Option.isSome passes.deleted
  unfold due at hd ⊢
  rw [deleting, same, show w'.request? = none by rw [Worker.request?, consumed]; rfl]
  by_cases away : w.metadata.isDeleting = true
  · rw [if_pos away] at hd
    have held : w.metadata.hasFinalizer finalizer = true := by
      by_contra off
      rw [if_neg off] at hd
      cases hd
    simp only [away, if_true, held, passes.held held, true_or]
  · simp only [away]
    rcases w.request? with _ | _ | _ | _
    · simp
    · simp
    · cases w.isMigrated <;> simp
    · cases w.isMigrated <;> simp

/-- If the write that consumes the request lands and a later one is lost, the request is gone
and the record is as it was. -/
theorem loses_later (hb : b.Shows k w) (annotated : w.metadata.request?.isSome = true)
    (lost : ((consumeRequest k w (operate w c)).advance (surroundings tell reason)
      ⟨b, some (n + 1)⟩).2.left = none) :
    ∃ b' w', (consumeRequest k w (operate w c)).advance (surroundings tell reason)
        ⟨b, some (n + 1)⟩ =
        (.done (.error (.retryable (ApiError.unavailable reason).message)), ⟨b', none⟩) ∧
      Passes k b w b' w' ∧ w'.metadata.request? = none ∧ w'.isMigrated = w.isMigrated := by
  obtain ⟨ok, w₁, passes₁, follows⟩ := hb.write (x := .clearRequest k) rfl
    fun _ _ he => by cases he
  have consumed : w₁.metadata.request? = none :=
    follows.request.trans (Write.request_clearRequest ..)
  have landed : (consumeRequest k w (operate w c)).advance (surroundings tell reason)
      ⟨b, some (n + 1)⟩ = (operate w c).advance (surroundings tell reason)
        ⟨{ b with api := (b.api.write (.clearRequest k)).2 }, some n⟩ := by
    rw [consumeRequest, if_pos annotated]
    show (Plan.unlessError (operate w c) (b.api.write (.clearRequest k)).1).advance
      (surroundings tell reason) ⟨{ b with api := (b.api.write (.clearRequest k)).2 }, some n⟩ = _
    rw [ok]
    rfl
  rw [landed] at lost ⊢
  obtain ⟨b', w', stop, passes, same⟩ := loses_operate tell passes₁.shows hb.key lost
  exact ⟨b', w', stop, passes₁.trans passes, passes.request consumed,
    same.trans follows.isMigrated⟩

/-- An attempt on a worker that is due for nothing writes nothing but that it consumes the
request. -/
theorem due_of_lost (annotated : w.metadata.request?.isSome = true)
    (lost : ((consumeRequest k w (operate w c)).advance (surroundings tell reason)
      ⟨b, some (n + 1)⟩).2.left = none) : ∃ m, due w = some m := by
  refine Option.ne_none_iff_exists'.mp fun none_ => ?_
  rw [operate_of_not_due none_, consumeRequest, if_pos annotated] at lost
  have still : ((Plan.unlessError (.done (.ok .done)) (b.api.write (.clearRequest k)).1).advance
      (surroundings tell reason)
      ⟨{ b with api := (b.api.write (.clearRequest k)).2 }, some n⟩).2.left = none := lost
  cases he : (b.api.write (.clearRequest k)).1 with
  | ok _ =>
    rw [he] at still
    cases still
  | error _ =>
    rw [he] at still
    cases still

/-- What an attempt leaves behind that loses a write before its call: everything as it was, if
the loss is that of the first write, and otherwise a worker without a request. -/
theorem stops_of_lost (hw : b.api.workers.get? w.key = some w)
    (annotated : w.metadata.request?.isSome = true)
    (hc : b.api.clusters.get? (Cluster.keyOf w.metadata.ns) = some c) (healthy : c.isFailed = false)
    (lost : ((plan w.key).advance (surroundings tell reason) ⟨b, some n⟩).2.left = none) :
    ∃ b', (plan w.key).advance (surroundings tell reason) ⟨b, some n⟩ =
        (.done (.error (.retryable (ApiError.unavailable reason).message)), ⟨b', none⟩) ∧
      (n = 0 ∧ b' = b ∨ n ≠ 0 ∧ ∃ w' m, due w = some m ∧ Passes w.key b w b' w' ∧
        w'.metadata.request? = none ∧ w'.isMigrated = w.isMigrated) := by
  have begins : (plan w.key).advance (surroundings tell reason) ⟨b, some n⟩ =
      (consumeRequest w.key w (operate w c)).advance (surroundings tell reason) ⟨b, some n⟩ :=
    advance_plan (surroundings tell reason) (s := ⟨b, some n⟩) hw hc healthy
  rw [begins] at lost ⊢
  cases n with
  | zero =>
    refine ⟨b, ?_, .inl ⟨rfl, rfl⟩⟩
    rw [consumeRequest, if_pos annotated]
    rfl
  | succ n =>
    obtain ⟨m, hd⟩ := due_of_lost tell annotated lost
    obtain ⟨b', w', stop, passes, consumed, same⟩ :=
      loses_later tell (ExclusiveApi.shows_of_due hw hd) annotated lost
    exact ⟨b', stop, .inr ⟨Nat.succ_ne_zero n, w', m, hd, passes, consumed, same⟩⟩

/-- **The next attempt makes the call that the lost one was to make exactly if the write that
was lost is the one that consumes the request, or the worker is in deletion, or the request
is for plain reconciling.** The attempt that lost a write before it called the actuator ends
with an error worth a retry and without a call. -/
theorem calls_again_iff (act : Command → Outage → Option Reply × Outage)
    (data : Command → Option Json) (reason : String) (b : ExclusiveApi) (w : Worker) (c : Cluster)
    (n : Nat)
    (hw : b.api.workers.get? w.key = some w) (annotated : w.metadata.request?.isSome = true)
    (hc : b.api.clusters.get? (Cluster.keyOf w.metadata.ns) = some c) (healthy : c.isFailed = false)
    (lost : ((plan w.key).advance (surroundings tell reason) ⟨b, some n⟩).2.left = none) :
    let after := (plan w.key).run (surroundings tell reason) act ⟨b, some n⟩
    let calls (b : ExclusiveApi) : List Call :=
      ((plan w.key).run (ExclusiveApi.surroundings tell) (ExclusiveApi.succeeding data) b).2.calls
    after.1 = .result (.error (.retryable (ApiError.unavailable reason).message)) ∧
      after.2.exclusive.calls = b.calls ∧
      (calls after.2.exclusive = calls b ↔ n = 0 ∨ w.metadata.isDeleting = true ∨
        w.request? ≠ some .migrate ∧ w.request? ≠ some .restore) := by
  intro after calls
  obtain ⟨b', stop, left⟩ := stops_of_lost tell hw annotated hc healthy lost
  have ended : after = (.result (.error (.retryable (ApiError.unavailable reason).message)),
      ⟨b', none⟩) := by
    show (plan w.key).run _ act _ = _
    rw [Plan.run_eq_advance, stop]
  rw [ended]
  show _ ∧ b'.calls = b.calls ∧ (calls b' = calls b ↔ _)
  -- If the first write is lost, both attempts start from the same API.
  rcases left with ⟨first, rfl⟩ | ⟨later, w', m, hd, passes, consumed, same⟩
  · exact ⟨rfl, rfl, fun _ => .inl first, fun _ => rfl⟩
  · have made : calls b = b.calls ++ (due w).toList :=
      ExclusiveApi.calls_of_due tell data hw rfl hc healthy
    have again : calls b' = b'.calls ++ (due w').toList :=
      ExclusiveApi.calls_of_due tell data passes.shows.stored passes.shows.key
        (by rw [passes.clusters]; exact hc) healthy
    have asks := due_after passes consumed same hd
    rw [hd] at made asks
    refine ⟨rfl, passes.calls, ?_⟩
    rw [made, again, passes.calls, List.append_cancel_left_eq, Option.toList_some,
      Option.toList_eq_singleton_iff, asks]
    exact ⟨.inr, fun h => h.resolve_left later⟩

/-- An API with a worker in deletion that a restoration is requested for. -/
def parting : ExclusiveApi :=
  .founded <| Trial.Fixture.deleting default <| Trial.Fixture.withFinalizer finalizer <|
    Trial.Fixture.requesting "restore" (Trial.Fixture.worker "tenant" "pool" default)

/-- The worker is torn down although its request was consumed by an attempt that failed. -/
theorem calls_again_iff_deletion :
    let after := (plan ⟨"tenant", "pool"⟩).run (surroundings (fun _ => default) "down")
      (fun _ o => (none, o)) ⟨parting, some 1⟩
    ((plan ⟨"tenant", "pool"⟩).run (ExclusiveApi.surroundings fun _ => default)
        (ExclusiveApi.succeeding fun _ => none) after.2.exclusive).2.calls =
      ((plan ⟨"tenant", "pool"⟩).run (ExclusiveApi.surroundings fun _ => default)
        (ExclusiveApi.succeeding fun _ => none) parting).2.calls :=
  (calls_again_iff (fun _ => default) (fun _ o => (none, o)) (fun _ => none) "down"
    parting ((parting.api.workers.get? ⟨"tenant", "pool"⟩).get rfl) _ 1 rfl rfl rfl
    rfl rfl).2.2.mpr (.inr (.inl rfl))

/-- A worker is to be migrated, and the record of that is lost after the request was consumed.
The first attempt was to migrate the worker, and the next one reconciles it. -/
theorem reconciled_after_lost_record :
    let b := ExclusiveApi.founded <| Trial.Fixture.requesting "migrate" <|
      Trial.Fixture.worker "tenant" "pool" default
    let after := (plan ⟨"tenant", "pool"⟩).run (surroundings (fun _ => default) "down")
      (fun c o => (some (.ok none), { o with
        exclusive := (ExclusiveApi.succeeding (fun _ => none) c o.exclusive).2 }))
      ⟨b, some 1⟩
    let calls (b : ExclusiveApi) : List Call := ((plan ⟨"tenant", "pool"⟩).run
      (ExclusiveApi.surroundings fun _ => default)
      (ExclusiveApi.succeeding fun _ => none) b).2.calls
    after.1 = .result (.error (.retryable "api unavailable: down")) ∧
      after.2.exclusive.calls = [] ∧ calls b = [.migrate] ∧
      calls after.2.exclusive = [.reconcile] :=
  ⟨rfl, rfl, rfl, rfl⟩

end Outage

end PoolControl
