import PoolControl.Proofs.Loop.Lag
import PoolControl.Proofs.Loop.Operation

/-! What an attempt leaves on record.

A record that is shown already is not written again, where being shown leaves out times and
what the record does not speak of. So whether it is written must not matter for what a worker
shows in the end: `differs_eq_false_iff` says that a record is skipped exactly if it would leave
the status as it is, and `leaves_of_record` that it leaves the same either way.

What comes before a call touches neither the observed generation nor the provider status
(`keeps_of_leads`). Put together, `provisions` is the outcome of an attempt that reconciles or
restores a worker, for every status that it may have had before. -/
namespace PoolControl

open Provision

/-- The record makes the status `t'` of `t`, times apart. -/
structure OperationStatus.Leaves (s : OperationStatus) (t t' : Worker.Status) : Prop where
  shows : t'.Shows s
  observed : t'.observedGeneration = s.observedGeneration.getD t.observedGeneration
  kept : s.providerStatus = none → t'.providerStatus = t.providerStatus
  data : ∀ j, s.providerStatus = some j → ∃ j', t'.providerStatus = some j' ∧ j'.same j = true

/-- The operation that is shown. -/
theorem Worker.Status.Shows.operation {t : Worker.Status} {s : OperationStatus} (h : t.Shows s) :
    ∃ o, t.lastOperation = some o ∧ o.kind = s.operation.kind ∧ o.state = s.operation.state := by
  obtain ⟨o, ho, gist⟩ := Option.map_eq_some_iff.mp h.2.1
  have gist := Prod.mk.inj gist
  exact ⟨o, ho, gist.1, (Prod.mk.inj gist.2).1⟩

namespace Provision

/-! ### Records that are shown -/

theorem sameOperation_iff {current : Option LastOperation} {next : LastOperation} :
    sameOperation current next = true ↔ current.map LastOperation.gist = some next.gist := by
  cases current with
  | none => simp [sameOperation]
  | some o => simp [sameOperation, LastOperation.gist, and_assoc]

theorem sameError_iff {current next : Option LastError} :
    sameError current next = true ↔ current.map LastError.gist = next.map LastError.gist := by
  cases current <;> cases next <;> simp [sameError, LastError.gist]

theorem sameProviderStatus_iff {current : Option Json} {next : Json} :
    sameProviderStatus current next = true ↔ ∃ j, current = some j ∧ j.same next = true := by
  cases current <;> simp [sameProviderStatus]

/-- **A record is skipped exactly if it would leave the status as it is.** -/
theorem differs_eq_false_iff {t : Worker.Status} {s : OperationStatus} :
    differs t s = false ↔ s.Leaves t t := by
  have observed : s.observedGeneration.any (· ≠ t.observedGeneration) = false ↔
      t.observedGeneration = s.observedGeneration.getD t.observedGeneration := by
    cases s.observedGeneration with
    | none => simp
    | some n =>
      simp only [Option.any_some, decide_eq_false_iff_not, not_not, Option.getD_some]
      exact eq_comm
  have data : s.providerStatus.any (!sameProviderStatus t.providerStatus ·) = false ↔
      ∀ j, s.providerStatus = some j → ∃ j', t.providerStatus = some j' ∧ j'.same j = true := by
    cases s.providerStatus <;> simp [sameProviderStatus_iff]
  have shows_ : t.Shows s ↔ t.phase = some s.phase ∧
      sameOperation t.lastOperation s.operation = true ∧ sameError t.lastError s.error = true := by
    rw [sameOperation_iff, sameError_iff]
    rfl
  constructor
  · intro h
    simp only [differs, Bool.or_eq_false_iff, Bool.not_eq_false', decide_eq_false_iff_not,
      not_not] at h
    obtain ⟨⟨⟨⟨phase, operation⟩, error⟩, seen⟩, provider⟩ := h
    exact ⟨shows_.mpr ⟨phase, operation, error⟩, observed.mp seen, fun _ => rfl,
      data.mp provider⟩
  · intro h
    obtain ⟨phase, operation, error⟩ := shows_.mp h.shows
    simp only [differs, phase, operation, error, observed.mpr h.observed, data.mpr h.data]
    simp

/-- What a record leaves when it is written. -/
theorem leaves_written {k : Key} {s : OperationStatus} {v v' : Worker}
    (h : (Write.operationStatus k s).Idle v ∧ v' = v ∨
      ∃ n, v' = ((Write.operationStatus k s).change v).versioned n) :
    s.Leaves v.status v'.status := by
  have shows_ := Lag.shows_written h
  have written : (s.apply v.status).observedGeneration = v'.status.observedGeneration ∧
      (s.apply v.status).providerStatus.map Json.unsigned =
        v'.status.providerStatus.map Json.unsigned := by
    rcases h with ⟨idle, rfl⟩ | ⟨n, rfl⟩
    · have same : ({ v' with status := s.apply v'.status } : Worker).unsigned = v'.unsigned :=
        of_decide_eq_true idle
      exact ⟨congrArg (fun w : Worker => w.status.observedGeneration) same,
        congrArg (fun w : Worker => w.status.providerStatus) same⟩
    · exact ⟨rfl, rfl⟩
  refine ⟨shows_, written.1.symm, fun absent => ?_, fun j present => ?_⟩
  · rcases h with ⟨-, rfl⟩ | ⟨n, rfl⟩
    · rfl
    · show s.providerStatus.or v.status.providerStatus = v.status.providerStatus
      rw [absent, Option.none_or]
  · have data := written.2
    simp only [OperationStatus.apply, present, Option.some_or, Option.map_some] at data
    obtain ⟨j', stored, same⟩ := Option.map_eq_some_iff.mp data.symm
    exact ⟨j', stored, decide_eq_true same⟩

end Provision

namespace ExclusiveApi

variable (tell : Nat → Timestamp) {k : Key} {b b' : ExclusiveApi} {w : Worker} {c : Cluster}
  {stop : Plan.Stop} {r : Result}

/-- A write that ends an attempt. -/
theorem api_of_last_write {x : Write}
    (h : (Plan.write x (Plan.unlessError (.done r))).advance (surroundings tell) b = (stop, b')) :
    b'.api = (b.api.write x).2 := by
  have h : (Plan.unlessError (.done r) (b.api.write x).1).advance (surroundings tell)
      { b with api := (b.api.write x).2 } = (stop, b') := h
  cases landed : (b.api.write x).1 with
  | ok =>
    rw [landed] at h
    cases h
    rfl
  | error e =>
    rw [landed] at h
    cases h
    rfl

/-- **A record that ends an attempt leaves the same whether it is written or skipped.** -/
theorem leaves_of_record {s : OperationStatus}
    (keyed : ∀ u, b.api.workers.get? k = some u → u.key = k)
    (h : (record k s (.done r)).advance (surroundings tell) b = (stop, b'))
    (stored : b'.api.workers.get? k = some w) :
    ∃ u, b.api.workers.get? k = some u ∧ s.Leaves u.status w.status := by
  rw [record, advance_look] at h
  cases cached : b.api.caches.workers.get? k with
  | none =>
    rw [cached] at h
    rw [api_of_last_write tell h, Api.write_of_missing (w := .operationStatus k s) cached] at stored
    cases stored.symm.trans cached
  | some u =>
    rw [cached] at h
    refine ⟨u, cached, ?_⟩
    dsimp only at h
    split at h
    · rw [api_of_last_write tell h] at stored
      exact leaves_written (k := k) (Api.left_write (x := .operationStatus k s) cached
        (keyed u cached) stored)
    · rename_i same
      cases h
      obtain rfl := Option.some.inj (stored.symm.trans cached)
      exact differs_eq_false_iff.mp (eq_false_of_ne_true same)

/-- What an error of the actuator leaves on record. -/
theorem leaves_of_fail {command : Command} {e : ActuatorError}
    (keyed : ∀ u, b.api.workers.get? k = some u → u.key = k)
    (h : (fail k (operationOf command) e).advance (surroundings tell) b = (stop, b'))
    (stored : b'.api.workers.get? k = some w) :
    ∃ u, b.api.workers.get? k = some u ∧
      (outcome command (.error e)).Leaves u.status w.status := by
  obtain ⟨u, found, leaves⟩ :=
    leaves_of_record tell (b := { b with readings := b.readings + 1 + 1 }) keyed h stored
  exact ⟨u, found, leaves.shows, leaves.observed, leaves.kept, leaves.data⟩

/-! ### Before the call -/

/-- What no write of a plan touches is as it was when the plan comes to its call. -/
theorem keeps_of_leads {R : Worker.Status → Prop} {W : Write → Prop}
    {Q : Command → (Reply → Plan) → Prop} {p : Plan} (leads : p.LeadsTo W Q)
    (writes : ∀ x, W x → x.key = k ∧ ∀ u : Worker, R u.status → R (x.change u).status)
    (before : ∀ u, b.api.workers.get? k = some u → u.key = k ∧ R u.status)
    (reached : p.advance (surroundings tell) b = (stop, b')) :
    ∀ u, b'.api.workers.get? k = some u → u.key = k ∧ R u.status := by
  induction p generalizing b with
  | done r =>
    cases reached
    exact before
  | look next ih => exact ih _ (leads _) before reached
  | clock next ih =>
    exact ih (b := { b with readings := b.readings + 1 }) _ (leads _) before reached
  | write x next ih =>
    apply ih (b := { b with api := (b.api.write x).2 }) _ (leads.2 _) ?_ reached
    intro v left
    obtain ⟨rfl, keeps⟩ := writes x leads.1
    obtain ⟨u, found⟩ := Tracker.found_of_modify (Api.workers_write b.api x ▸ left)
    obtain ⟨hu, ru⟩ := before u found
    rcases Api.left_write found hu left with ⟨-, rfl⟩ | ⟨n, rfl⟩
    · exact ⟨hu, ru⟩
    · exact ⟨(Write.key_change x u).trans hu, keeps u ru⟩
  | actuate c next =>
    cases reached
    exact before

/-- Neither the observed generation nor the provider status changes before the call. -/
theorem kept_before_call (stored : b.api.workers.get? k = some w) (hw : w.key = k)
    (reached : (plan k).advance (surroundings tell) b = (stop, b')) {w' : Worker}
    (found : b'.api.workers.get? k = some w') :
    w'.status.observedGeneration = w.status.observedGeneration ∧
      w'.status.providerStatus = w.status.providerStatus := by
  have attends : (attend k w).advance (surroundings tell) b = (stop, b') := by
    rw [plan_eq, advance_look, show b.api.caches.workers.get? k = some w from stored] at reached
    exact reached
  let R : Worker.Status → Prop := fun t =>
    t.observedGeneration = w.status.observedGeneration ∧
      t.providerStatus = w.status.providerStatus
  let W : Write → Prop := fun x => x.key = k ∧ ∀ u : Worker, R u.status → R (x.change u).status
  have consumes : W (.clearRequest k) := ⟨rfl, fun _ => id⟩
  have holds : W (.addFinalizer k finalizer) := by
    refine ⟨rfl, fun u kept => ?_⟩
    simp only [Write.change]
    split <;> exact kept
  have announces (s : OperationStatus) (unseen : s.observedGeneration = none)
      (absent : s.providerStatus = none) : W (.operationStatus k s) := by
    refine ⟨rfl, fun u kept => ?_⟩
    simp only [Write.change, OperationStatus.apply, unseen, absent, Option.getD_none,
      Option.none_or]
    exact kept
  have before : ∀ u, b.api.workers.get? k = some u → u.key = k ∧ R u.status := by
    intro u same
    obtain rfl := Option.some.inj (same.symm.trans stored)
    exact ⟨hw, rfl, rfl⟩
  have leads := leads_attend_of (k := k) (w := w) (W := W) (fun _ => consumes)
    (fun _ _ _ => hw ▸ holds) fun _ _ _ _ => hw ▸ announces _ rfl rfl
  exact (keeps_of_leads tell leads (fun _ => id) before attends w' found).2

end ExclusiveApi

/-! ### Provisioning -/

namespace Provision

variable {w : Worker} {m : Call}

/-- The call for a worker that is to be provisioned. -/
def provisionCall (w : Worker) : Call := if w.request? = some .restore then .restore else .reconcile

/-- The operation that provisioning a worker is. It is a creation until one has succeeded. -/
def provisionKind (w : Worker) : OperationKind :=
  if w.request? = some .restore then .restore
  else if ∀ o ∈ w.status.lastOperation, o.kind = .create ∧ o.state ≠ .succeeded then .create
  else .reconcile

theorem creates_provisionCall (w : Worker) : Idle.creates (provisionCall w) = true := by
  unfold provisionCall
  split <;> rfl

theorem provisionCall_ne (w : Worker) : provisionCall w ≠ .delete ∧ provisionCall w ≠ .migrate := by
  unfold provisionCall
  split <;> decide

/-- A worker that is neither in deletion nor to be migrated is due for provisioning, unless it
was handed over and is not to be restored. -/
theorem due_of_provision (present : w.metadata.isDeleting = false)
    (other : w.request? ≠ some .migrate)
    (here : w.isMigrated = true → w.request? = some .restore) : due w = some (provisionCall w) := by
  rw [due, if_neg (by rw [present]; exact Bool.false_ne_true), provisionCall]
  rcases hr : w.request? with _ | _ | _ | _
  · have here : w.isMigrated = false := by simpa [hr] using here
    simp [here]
  · have here : w.isMigrated = false := by simpa [hr] using here
    simp [here]
  · exact absurd hr other
  · simp

theorem operationOf_provision (w : Worker) (c : Cluster) :
    operationOf ⟨provisionCall w, w, c⟩ = provisionKind w := by
  unfold provisionKind provisionCall
  split
  · rfl
  · show plainKind w.status = _
    unfold plainKind
    cases w.status.lastOperation with
    | none => simp
    | some o => simp [LastOperation.succeeded]

/-- What is on record of the worker `w` after a reply to the call that provisions it. -/
def Recorded (w : Worker) : Reply → Worker.Status → Prop
  | .ok data, t =>
    t.phase = some .ready ∧
      (∃ o, t.lastOperation = some o ∧ o.kind = provisionKind w ∧ o.state = .succeeded) ∧
      t.lastError = none ∧ t.observedGeneration = w.metadata.generation ∧
      (data = none → t.providerStatus = w.status.providerStatus) ∧
      ∀ j, data = some j → ∃ j', t.providerStatus = some j' ∧ j'.same j = true
  | .error e, t =>
    t.phase = some .failed ∧
      (∃ o, t.lastOperation = some o ∧ o.kind = provisionKind w ∧
        o.state = if e.isRetryable then .error else .failed) ∧
      (∃ x, t.lastError = some x ∧ x.description = e.message ∧ x.retryable = e.isRetryable) ∧
      t.observedGeneration = w.status.observedGeneration ∧
      t.providerStatus = w.status.providerStatus

/-- The outcome of a call is what the record makes of a status that still has the generation and
the data of the worker. -/
theorem recorded_of_leaves {c : Cluster} {r : Reply} {t t' : Worker.Status}
    (leaves : (outcome ⟨provisionCall w, w, c⟩ r).Leaves t t')
    (observed : t.observedGeneration = w.status.observedGeneration)
    (data : t.providerStatus = w.status.providerStatus) : Recorded w r t' := by
  obtain ⟨shows_, seen, kept, told⟩ := leaves
  obtain ⟨o, ho, kind, state⟩ := shows_.operation
  obtain ⟨phase, -, error⟩ := shows_
  cases r with
  | ok p =>
    rw [outcome, if_neg (provisionCall_ne w).2, operationOf_provision] at *
    exact ⟨phase, ⟨o, ho, kind, state⟩, Option.map_eq_none_iff.mp error, seen,
      fun absent => (kept absent).trans data, told⟩
  | error e =>
    rw [outcome, operationOf_provision] at *
    obtain ⟨x, hx, gist⟩ := Option.map_eq_some_iff.mp error
    have gist := Prod.mk.inj gist
    exact ⟨phase, ⟨o, ho, kind, state⟩, ⟨x, hx, gist.1, gist.2⟩, seen.trans observed,
      (kept rfl).trans data⟩

end Provision

namespace ExclusiveApi

variable (tell : Nat → Timestamp) {k : Key} {b b' : ExclusiveApi} {w : Worker} {c : Cluster}

/-- **What an attempt leaves that reconciles or restores a worker.** The worker `w` is stored and
not in deletion, its cluster is there and not failed, and no migration is asked for; if it was
handed over, a restoration is. The attempt calls the actuator once, with `w` as it was, and ends
with the verdict on the reply. The worker has the finalizer then and no request, and shows the
outcome, whatever it showed before. -/
theorem provisions (hw : b.api.workers.get? k = some w) (hk : w.key = k)
    (hc : b.api.clusters.get? (Cluster.keyOf k.ns) = some c) (healthy : c.isFailed = false)
    (present : w.metadata.isDeleting = false) (other : w.request? ≠ some .migrate)
    (here : w.isMigrated = true → w.request? = some .restore) :
    ∃ next b₁, (plan k).advance (surroundings tell) b =
        (.actuate ⟨provisionCall w, w, c⟩ next, b₁) ∧
      ∀ r, ∃ b₂ w', (next r).advance (surroundings tell) b₁ = (.done (verdict r), b₂) ∧
        b₂.api.workers.get? k = some w' ∧ w'.metadata.hasFinalizer finalizer = true ∧
        w'.metadata.request? = none ∧ Recorded w r w'.status := by
  subst hk
  have hd := due_of_provision present other here
  obtain ⟨b₁, w₁, reached, passes, consumed, on⟩ :=
    calls_due tell (shows_of_due hw hd) hc healthy hd
  have held := on (creates_provisionCall w)
  obtain ⟨observed, data⟩ := kept_before_call tell hw rfl reached passes.shows.stored
  refine ⟨_, b₁, reached, fun r => ?_⟩
  have keyed : ∀ u, b₁.api.workers.get? w.key = some u → u.key = w.key := by
    intro u found
    rw [Option.some.inj (found.symm.trans passes.shows.stored)]
    exact passes.shows.key
  have leaves {b₂ : ExclusiveApi} {w₂ : Worker} (passes₂ : Passes w.key b₁ w₁ b₂ w₂)
      (left : ∃ u, b₁.api.workers.get? w.key = some u ∧
        (outcome ⟨provisionCall w, w, c⟩ r).Leaves u.status w₂.status) :
      b₂.api.workers.get? w.key = some w₂ ∧ w₂.metadata.hasFinalizer finalizer = true ∧
        w₂.metadata.request? = none ∧ Recorded w r w₂.status := by
    obtain ⟨u, found, leaves⟩ := left
    obtain rfl := Option.some.inj (found.symm.trans passes.shows.stored)
    exact ⟨passes₂.shows.stored, passes₂.held held, passes₂.request consumed,
      recorded_of_leaves leaves observed data⟩
  cases r with
  | ok p =>
    obtain ⟨undeleted, unmigrated⟩ := provisionCall_ne w
    have read := passes.shows.read (b₁.readings + 1)
    obtain ⟨b₂, w₂, ended, passes₂, -⟩ := passes_record tell read.shows
      { outcome ⟨provisionCall w, w, c⟩ (.ok p) with operation.time := tell b₁.readings }
      (.done (.ok .done))
    obtain ⟨u, found, left⟩ := leaves_of_record tell (b := { b₁ with readings := b₁.readings + 1 })
      keyed ended passes₂.shows.stored
    refine ⟨b₂, w₂, ?_, leaves (read.trans passes₂)
      ⟨u, found, left.shows, left.observed, left.kept, left.data⟩⟩
    rw [conclude, if_neg undeleted, if_neg unmigrated]
    exact ended
  | error e =>
    obtain ⟨b₂, w₂, ended, passes₂, -⟩ :=
      passes_fail tell passes.shows (operationOf ⟨provisionCall w, w, c⟩) e
    exact ⟨b₂, w₂, ended, leaves passes₂
      (leaves_of_fail tell keyed ended passes₂.shows.stored)⟩

/-- An API with a worker that was handed over, and is to be restored. -/
def returning : ExclusiveApi :=
  founded <| Trial.Fixture.requesting "restore" <|
    Trial.Fixture.withOperation .migrate .succeeded default
      (Trial.Fixture.worker "tenant" "pool" default)

/-- The restoration of a worker that was handed over fails for good. -/
theorem provisions_returning :
    ∃ (c : Command) (next : Reply → Plan) (b₁ b₂ : ExclusiveApi) (w : Worker),
      (plan ⟨"tenant", "pool"⟩).advance (surroundings fun _ => default) returning =
        (.actuate c next, b₁) ∧
      (next (.error (.terminal "gone"))).advance (surroundings fun _ => default) b₁ =
        (.done (.error (.terminal "terminal actuator error: gone")), b₂) ∧
      b₂.api.workers.get? ⟨"tenant", "pool"⟩ = some w ∧ c.call = .restore ∧
      w.status.phase = some .failed := by
  have hw : returning.api.workers.get? ⟨"tenant", "pool"⟩ = some _ := rfl
  obtain ⟨next, b₁, reached, ends⟩ := provisions (fun _ => default) hw rfl rfl rfl rfl (by decide)
    fun _ => rfl
  obtain ⟨b₂, w, ended, stored, -, -, recorded⟩ := ends (.error (.terminal "gone"))
  exact ⟨_, next, b₁, b₂, w, reached, ended, stored, rfl, recorded.1⟩

end ExclusiveApi

end PoolControl
