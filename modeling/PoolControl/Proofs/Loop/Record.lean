import PoolControl.Loop.Report
import PoolControl.Proofs.Loop.Exclusive

/-! The record of operations agrees with itself.

Phase, last operation and last error of a worker are three fields that users read side by
side. `Worker.Status.Consistent` says what they tell of one another. The provisioning loop
writes them together, in one of the few forms of `OperationStatus.Proper`, and the report
loop leaves them alone, so the fields agree as long as nobody else writes them.

`Plan.Only` speaks of every write that a plan may come to, whatever it is answered. So the
attempts at a `SharedApi`, where both loops are at work on any number of keys, may look at caches
that are out of date, may fail at any write and may be cut off anywhere: `status_consistent`
holds all the same. -/
namespace PoolControl

/-- What phase, last operation and last error of a worker tell of one another. -/
structure Worker.Status.Consistent (s : Worker.Status) : Prop where
  recorded : s.phase.isSome = s.lastOperation.isSome
  ready : s.phase = some .ready ↔ ∃ o, s.lastOperation = some o ∧ o.state = .succeeded ∧
    (o.kind = .create ∨ o.kind = .reconcile ∨ o.kind = .restore)
  pending : s.phase = some .pending ↔
    ∃ o, s.lastOperation = some o ∧ o.state = .succeeded ∧ o.kind = .migrate
  failed : s.phase = some .failed ↔
    ∃ o, s.lastOperation = some o ∧ (o.state = .error ∨ o.state = .failed)
  reconciling : s.phase = some .reconciling →
    ∃ o, s.lastOperation = some o ∧ o.state = .processing ∧ o.kind ≠ .delete
  deleting : s.phase = some .deleting →
    ∃ o, s.lastOperation = some o ∧ o.state = .processing ∧ o.kind = .delete
  succeeded : ∀ o, s.lastOperation = some o → o.state = .succeeded → s.lastError = none
  willRetry : ∀ o, s.lastOperation = some o → o.state = .error →
    ∃ e, s.lastError = some e ∧ e.retryable = true ∧ e.description = o.description
  gaveUp : ∀ o, s.lastOperation = some o → o.state = .failed →
    ∃ e, s.lastError = some e ∧ e.retryable = false ∧ e.description = o.description

theorem Worker.Status.consistent_default : (default : Worker.Status).Consistent := by
  have phase (p : WorkerPhase) : (default : Worker.Status).phase ≠ some p := nofun
  have operation (o : LastOperation) : (default : Worker.Status).lastOperation ≠ some o := nofun
  have none_ {P : LastOperation → Prop} :
      ¬ ∃ o, (default : Worker.Status).lastOperation = some o ∧ P o :=
    fun ⟨o, h, _⟩ => operation o h
  exact ⟨rfl, iff_of_false (phase _) none_, iff_of_false (phase _) none_,
    iff_of_false (phase _) none_, fun h => absurd h (phase _), fun h => absurd h (phase _),
    fun o h => absurd h (operation o), fun o h => absurd h (operation o),
    fun o h => absurd h (operation o)⟩

/-- The forms of the records that the provisioning loop makes. -/
inductive OperationStatus.Proper : OperationStatus → Prop
  | deleting {description time error generation provider} :
      Proper ⟨.deleting, ⟨.delete, .processing, description, time⟩, error, generation, provider⟩
  | reconciling {kind description time error generation provider} (other : kind ≠ .delete) :
      Proper ⟨.reconciling, ⟨kind, .processing, description, time⟩, error, generation, provider⟩
  | ready {kind description time generation provider}
      (which : kind = .create ∨ kind = .reconcile ∨ kind = .restore) :
      Proper ⟨.ready, ⟨kind, .succeeded, description, time⟩, none, generation, provider⟩
  | handedOver {description time generation provider} :
      Proper ⟨.pending, ⟨.migrate, .succeeded, description, time⟩, none, generation, provider⟩
  | failed {kind description time time' generation provider} (retryable : Bool) :
      Proper ⟨.failed, ⟨kind, if retryable then .error else .failed, description, time⟩,
        some ⟨description, retryable, time'⟩, generation, provider⟩

/-- Whatever was recorded before, a proper record is consistent. -/
theorem OperationStatus.Proper.consistent {s : OperationStatus} (h : s.Proper)
    (old : Worker.Status) : (s.apply old).Consistent := by
  cases h with
  | deleting => constructor <;> simp [OperationStatus.apply]
  | reconciling other => constructor <;> simp [OperationStatus.apply, other]
  | @ready kind _ _ _ _ which =>
    have staying : kind ≠ .migrate := by rcases which with rfl | rfl | rfl <;> decide
    constructor <;> simp [OperationStatus.apply, which, staying]
  | handedOver => constructor <;> simp [OperationStatus.apply]
  | failed retryable => cases retryable <;> constructor <;> simp [OperationStatus.apply]

/-! ### What an attempt may write -/

/-- Whether a write leaves the record alone, or makes a proper one. -/
def Write.Proper : Write → Prop
  | .operationStatus _ s => s.Proper
  | _ => True

/-- A proper write leaves a consistent status consistent. -/
theorem Write.Proper.consistent {x : Write} (h : x.Proper) {w : Worker}
    (hw : w.status.Consistent) : (x.change w).status.Consistent := by
  cases x with
  | operationStatus k s => exact OperationStatus.Proper.consistent h w.status
  | state k s => exact ⟨hw.recorded, hw.ready, hw.pending, hw.failed, hw.reconciling, hw.deleting,
      hw.succeeded, hw.willRetry, hw.gaveUp⟩
  | addFinalizer k f =>
    simp only [change]
    split <;> exact hw
  | removeFinalizer => exact hw
  | clearRequest => exact hw

namespace Provision

/-- The kinds of the operations that may be on record for a call. -/
theorem operationOf_cases (c : Command) :
    c.call = .delete ∧ operationOf c = .delete ∨ c.call = .migrate ∧ operationOf c = .migrate ∨
      c.call ≠ .delete ∧ c.call ≠ .migrate ∧
        (operationOf c = .create ∨ operationOf c = .reconcile ∨ operationOf c = .restore) := by
  unfold operationOf
  cases c.call with
  | reconcile => exact .inr (.inr ⟨nofun, nofun, (plainKind_cases _).imp_right .inl⟩)
  | delete => exact .inl ⟨rfl, rfl⟩
  | migrate => exact .inr (.inl ⟨rfl, rfl⟩)
  | restore => exact .inr (.inr ⟨nofun, nofun, .inr (.inr rfl)⟩)

/-- What is put on record before a call has the kind that goes with its phase. -/
theorem proper_announced (c : Command) (now : Timestamp) :
    { announced c with operation.time := now }.Proper := by
  unfold announced
  rcases operationOf_cases c with ⟨call, kind⟩ | ⟨call, kind⟩ | ⟨delete, -, kind⟩
  · rw [if_pos call, kind]
    exact .deleting
  · rw [if_neg (by rw [call]; decide), kind]
    exact .reconciling nofun
  · rw [if_neg delete]
    have other : operationOf c ≠ .delete := by
      rcases kind with e | e | e <;> rw [e] <;> nofun
    exact .reconciling other

/-- The outcome of a call that leaves the worker there is proper. -/
theorem proper_outcome (c : Command) (r : Reply) (there : c.call = .delete → releases c r = false)
    (now later : Timestamp) : (stamped (outcome c r) now later).Proper := by
  cases r with
  | error e => exact .failed e.isRetryable
  | ok data =>
    rw [stamped_outcome, outcome]
    rcases operationOf_cases c with ⟨call, -⟩ | ⟨call, -⟩ | ⟨-, migrate, kind⟩
    · have released := there call
      rw [releases, call] at released
      cases released
    · rw [if_pos call]
      exact .handedOver
    · rw [if_neg migrate]
      exact .ready kind

/-- **Every record that an attempt makes is proper.** -/
theorem proper_plan (k : Key) : (plan k).Only Write.Proper := by
  refine (leads_plan fun w => ?_).only
  refine (leads_attend_of (fun _ => trivial) (fun _ _ _ => trivial)
    fun c now _ _ => proper_announced c now).imp (fun _ => id) ?_
  rintro c _ ⟨-, -, rfl⟩ r
  exact only_conclude_of c r (fun there now later => proper_outcome c r there now later)
    fun _ => trivial

end Provision

/-- The report loop makes no records. -/
theorem Report.proper_plan (k : Key) : (plan k).Only Write.Proper := by
  intro caches
  dsimp only
  split
  · trivial
  · intro caches' caches''
    dsimp only
    split
    · trivial
    · exact Plan.only_write trivial trivial

/-! ### Both loops at work -/

/-- What may be left of an attempt by its next step, and of the API. It may look at any
caches, and any write may be refused. -/
inductive AttemptState.Goes (a : Api) : AttemptState → Option AttemptState → Api → Prop
  | look {next} (caches : Caches) : Goes a (.going (.look next)) (some (.going (next caches))) a
  | clock {next} (now : Timestamp) : Goes a (.going (.clock next)) (some (.going (next now))) a
  | write {w next} :
      Goes a (.going (.write w next)) (some (.going (next (a.write w).1))) (a.write w).2
  | refuse {w next} (e : ApiError) :
      Goes a (.going (.write w next)) (some (.going (next (.error e)))) a
  | call {c next} : Goes a (.going (.actuate c next)) (some (.calling c next)) a
  | reply {c next} (r : Reply) : Goes a (.calling c next) (some (.going (next r))) a
  /-- An attempt ends, panics or is cut off. -/
  | leave {stage} : Goes a stage none a

/-- An API with the attempts under way, which are numbered. -/
structure SharedApi where
  api : Api
  attempts : Nat → Option AttemptState

namespace SharedApi

/-- What can happen next. Users create workers without a status and leave the status of
others alone. -/
inductive Step : SharedApi → SharedApi → Prop
  | create (y : SharedApi) (now : Timestamp) (x : Worker) (new : x.status = default) :
      Step y { y with api := { y.api with workers := (y.api.workers.create now x).2 } }
  | change (y : SharedApi) (k : Key) (f : Worker → Worker)
      (allowed : ∀ old, y.api.workers.get? k = some old → (f old).status = old.status) :
      Step y { y with api := { y.api with workers := (y.api.workers.modify k f).2 } }
  | delete (y : SharedApi) (now : Timestamp) (k : Key) :
      Step y { y with api := { y.api with workers := (y.api.workers.delete now k).2 } }
  /-- Something changes that is no worker, such as a cluster. -/
  | elsewhere (y : SharedApi) (a : Api) (store : a.workers.store = y.api.workers.store) :
      Step y { y with api := a }
  | begin (y : SharedApi) (i : Nat) (k : Key) (p : Plan)
      (loop : p = Provision.plan k ∨ p = Report.plan k) (free : y.attempts i = none) :
      Step y { y with attempts := Function.update y.attempts i (some (.going p)) }
  | move (y : SharedApi) {i : Nat} {stage : AttemptState} {stage' : Option AttemptState} {a : Api}
      (under : y.attempts i = some stage) (goes : stage.Goes y.api stage' a) :
      Step y ⟨a, Function.update y.attempts i stage'⟩

/-- What can be reached. -/
abbrev Reaches : SharedApi → SharedApi → Prop := Relation.ReflTransGen Step

/-- Whether every write that an attempt may still come to has a property. -/
def Only (P : Write → Prop) : AttemptState → Prop
  | .going p => p.Only P
  | .calling _ next => ∀ r, (next r).Only P

/-- Every worker is consistent, and every attempt leaves it so. -/
structure Sound (y : SharedApi) : Prop where
  stored : ∀ k w, y.api.workers.get? k = some w → w.status.Consistent
  attempts : ∀ i stage, y.attempts i = some stage → Only Write.Proper stage

variable {y y' : SharedApi}

/-- Whatever is done to workers otherwise, only their statuses and the attempts count. -/
theorem Sound.of_attempt (h : y.Sound) {a : Api} {i : Nat} {stage : Option AttemptState}
    (stored : ∀ k w, a.workers.get? k = some w → w.status.Consistent)
    (only : ∀ st, stage = some st → Only Write.Proper st) :
    Sound ⟨a, Function.update y.attempts i stage⟩ := by
  refine ⟨stored, fun j st under => ?_⟩
  have under : Function.update y.attempts i stage j = some st := under
  by_cases hi : j = i
  · subst hi
    rw [Function.update_self] at under
    exact only st under
  · rw [Function.update_of_ne hi] at under
    exact h.attempts j st under

theorem Sound.move (h : y.Sound) {i : Nat} {stage : AttemptState} {stage' : Option AttemptState}
    {a : Api}
    (under : y.attempts i = some stage) (goes : stage.Goes y.api stage' a) :
    Sound ⟨a, Function.update y.attempts i stage'⟩ := by
  have only := h.attempts i stage under
  have going {p : Plan} (hp : p.Only Write.Proper) :
      ∀ st, some (AttemptState.going p) = some st → Only Write.Proper st := by
    intro st e
    rw [← Option.some.inj e]
    exact hp
  cases goes with
  | look caches => exact h.of_attempt h.stored (going (only caches))
  | clock now => exact h.of_attempt h.stored (going (only now))
  | @write x next =>
    obtain ⟨proper, later⟩ : x.Proper ∧ ∀ r, (next r).Only Write.Proper := only
    refine h.of_attempt (fun k w found => ?_) (going (later _))
    rw [Api.workers_write] at found
    rcases Tracker.found_modify found with before | ⟨old, m, before, rfl⟩
    · exact h.stored k w before
    · exact proper.consistent (h.stored _ old before)
  | refuse e => exact h.of_attempt h.stored (going (only.2 (.error e)))
  | call =>
    refine h.of_attempt h.stored fun st e => ?_
    rw [← Option.some.inj e]
    exact only
  | @reply c next r =>
    have only : ∀ r, (next r).Only Write.Proper := only
    exact h.of_attempt h.stored (going (only r))
  | leave => exact h.of_attempt h.stored fun _ e => by cases e

/-- **Every step keeps workers consistent.** -/
theorem Sound.step (h : y.Sound) (hs : Step y y') : y'.Sound := by
  cases hs with
  | create now x new =>
    refine ⟨fun k w found => ?_, h.attempts⟩
    rcases Tracker.found_create found with before | ⟨m, rfl⟩
    · exact h.stored k w before
    · show x.status.Consistent
      rw [new]
      exact Worker.Status.consistent_default
  | change k' f allowed =>
    refine ⟨fun k w found => ?_, h.attempts⟩
    rcases Tracker.found_modify found with before | ⟨old, m, before, rfl⟩
    · exact h.stored k w before
    · show (f old).status.Consistent
      rw [allowed old before]
      exact h.stored k' old before
  | delete now k' =>
    refine ⟨fun k w found => ?_, h.attempts⟩
    rcases Tracker.found_delete found with before | ⟨old, m, before, rfl⟩
    · exact h.stored k w before
    · exact h.stored k' old before
  | elsewhere a store =>
    refine ⟨fun k w found => h.stored k w ?_, h.attempts⟩
    show y.api.workers.store.get? k = some w
    rw [← store]
    exact found
  | begin i k p loop free =>
    refine h.of_attempt h.stored fun st e => ?_
    obtain rfl := Option.some.inj e
    rcases loop with rfl | rfl
    · exact Provision.proper_plan k
    · exact Report.proper_plan k
  | move under goes => exact h.move under goes

theorem Sound.run (h : y.Sound) (hs : Reaches y y') : y'.Sound := by
  induction hs with
  | refl => exact h
  | tail _ step ih => exact ih.step step

/-- **Phase, last operation and last error agree** in every worker that is stored, if workers
begin without a status and nobody but the two loops writes it. -/
theorem status_consistent (idle : ∀ i, y.attempts i = none)
    (new : ∀ k w, y.api.workers.get? k = some w → w.status = default) (h : Reaches y y')
    {k : Key} {w : Worker} (found : y'.api.workers.get? k = some w) : w.status.Consistent := by
  have start : y.Sound := by
    refine ⟨fun k w found => ?_, fun i stage under => ?_⟩
    · rw [new k w found]
      exact Worker.Status.consistent_default
    · rw [idle i] at under
      cases under
  exact (start.run h).stored k w found

/-! ### An attempt after the other -/

/-- The API with another stage of an attempt. -/
def staged (y : SharedApi) (i : Nat) (stage : Option AttemptState) (a : Api) : SharedApi :=
  ⟨a, Function.update y.attempts i stage⟩

theorem staged_move {i : Nat} {stage : AttemptState} {stage' : Option AttemptState} {a a' : Api}
    (goes : stage.Goes a stage' a') : Step (y.staged i (some stage) a) (y.staged i stage' a') := by
  have under : (y.staged i (some stage) a).attempts i = some stage := by
    simp only [staged, Function.update_self]
  have step : Step _ _ := .move _ under goes
  rwa [staged, Function.update_idem] at step

/-- What an attempt does with the API for itself it may do with a shared one. -/
theorem reaches_of_advance {i : Nat} (tell : Nat → Timestamp) {p : Plan} {b b' : ExclusiveApi}
    {stop : Plan.Stop} (h : p.advance (ExclusiveApi.surroundings tell) b = (stop, b')) :
    Reaches (y.staged i (some (.going p)) b.api) (y.staged i (some (.going stop.plan)) b'.api) := by
  induction p generalizing b with
  | done r =>
    cases h
    exact .refl
  | look next ih => exact (ih _ h).head (staged_move (.look _))
  | clock next ih => exact (ih _ h).head (staged_move (.clock _))
  | write w next ih => exact (ih _ h).head (staged_move .write)
  | actuate c next =>
    cases h
    exact .refl

/-- An attempt that nobody disturbs gets as far as with the API for itself. -/
theorem reaches_of_begin {i : Nat} {k : Key} {p : Plan}
    (loop : p = Provision.plan k ∨ p = Report.plan k) (free : y.attempts i = none)
    {stop : Plan.Stop} {b' : ExclusiveApi}
    (h : p.advance (ExclusiveApi.surroundings fun _ => default) (.of y.api) = (stop, b')) :
    Reaches y (y.staged i (some (.going stop.plan)) b'.api) :=
  (reaches_of_advance (y := y) _ h).head (.begin y i k p loop free)

/-- An API where a worker was created in a healthy cluster, and nothing else has happened. -/
theorem reaches_founded {w : Worker} (new : w.status = default) :
    Reaches ⟨.empty, fun _ => none⟩ ⟨(Site.founded w).api, fun _ => none⟩ := by
  let c := Trial.Fixture.cluster w.metadata.ns default .healthy
  let a := { Api.empty with clusters := ((∅ : Tracker Cluster).create default c).2 }
  have cluster : Reaches ⟨.empty, fun _ => none⟩ ⟨a, fun _ => none⟩ :=
    .single (.elsewhere _ a rfl)
  exact cluster.tail (.create _ default w new)

/-- A worker whose first reconciliation fails for now, after its machines were reported. -/
theorem status_consistent_failed :
    ∃ (y y' : SharedApi) (w : Worker), (∀ i, y.attempts i = none) ∧
      (∀ k w, y.api.workers.get? k = some w → w.status = default) ∧ Reaches y y' ∧
      y'.api.workers.get? ⟨"tenant", "pool"⟩ = some w ∧ w.status.phase = some .failed ∧
      w.status.state.isSome = true ∧ w.status.Consistent := by
  have idle : ∀ i, (⟨.empty, fun _ => none⟩ : SharedApi).attempts i = none := fun _ => rfl
  have new : ∀ k w, (⟨.empty, fun _ => none⟩ : SharedApi).api.workers.get? k = some w →
      w.status = default := fun _ _ h => by cases h
  have founded := reaches_founded (w := Trial.Fixture.worker "tenant" "pool" default) rfl
  have reported := (founded.trans
    (reaches_of_begin (i := 0) (k := ⟨"tenant", "pool"⟩) (.inr rfl) rfl rfl)).tail
      (staged_move .leave)
  have calling := (reported.trans
    (reaches_of_begin (i := 0) (k := ⟨"tenant", "pool"⟩) (.inl rfl) rfl rfl)).tail
      (staged_move .call)
  have answered := calling.tail (staged_move (.reply (.error (.retryable "busy"))))
  have failed := (answered.trans
    (reaches_of_advance (fun _ => default) (b := .of _) rfl)).tail (staged_move .leave)
  exact ⟨_, _, _, idle, new, failed, rfl, rfl, rfl,
    status_consistent (k := ⟨"tenant", "pool"⟩) idle new failed rfl⟩

end SharedApi

end PoolControl
