import PoolControl.Proofs.Loop.Exclusive
import PoolControl.Proofs.Loop.Transcript

/-! Intent before effect.

Before an attempt calls the actuator it says what it is about to do, so that an attempt that is
cut off during the call leaves a record that tells the next one what to try again. It skips that
write if the record is there already: a retry keeps the record it found, and a record that the
cache shows is not written twice. `Intended` is what the API shows at a call in any case.

The parts of an attempt are told by what they make sure of (`asks_consumeRequest`,
`asks_ensureFinalizer`, `asks_start`), each with the rest of the attempt as what follows it.
`intent_recorded` puts them together, and adds that a write that fails is the last thing an
attempt does. -/
namespace PoolControl

open Provision

/-- What the API shows when a call is made in an attempt on `k`: a worker without a request and
with the operation on record, and a cluster that has not failed. -/
structure Intended (k : Key) (c : Command) (a : Api) : Prop where
  recorded : ∃ w o, a.workers.get? k = some w ∧ w.metadata.request? = none ∧
    w.status.lastOperation = some o ∧ o.kind = operationOf c ∧
    (o.state = .processing ∨ o.state = .error)
  cluster : a.clusters.get? (Cluster.keyOf k.ns) = some c.cluster
  healthy : c.cluster.isFailed = false

namespace Provision

/-! ### What comes before a call -/

section

variable {Q : Command → Api → Prop} {k : Key} {a : Api} {v w : Worker} {next : Plan}

open ExclusiveApi (Shows Passes)

/-- A write that takes no finalizer off, on a worker that is not about to go. -/
theorem asks_write (shows_ : (ExclusiveApi.of a).Shows k w) {x : Write} (hk : x.key = k)
    (hx : ∀ k f, x ≠ .removeFinalizer k f)
    (h : ∀ a' w', Passes k (.of a) w (.of a') w' → Tracker.Follows w (x.change w) w' →
      next.Asks Q a') :
    (Plan.write x (Plan.unlessError next)).Asks Q a := by
  obtain ⟨ok, w', passes, follows⟩ := shows_.write hk hx
  refine ⟨?_, fun e => trivial⟩
  have ok : (a.write x).1 = .ok () := ok
  rw [ok]
  exact h _ w' passes follows

theorem asks_consumeRequest (shows_ : (ExclusiveApi.of a).Shows k w)
    (h : ∀ a' w', Passes k (.of a) w (.of a') w' → w'.metadata.request? = none →
      w'.status.lastOperation = w.status.lastOperation → next.Asks Q a') :
    (consumeRequest k w next).Asks Q a := by
  unfold consumeRequest
  split
  · refine asks_write shows_ (x := .clearRequest k) rfl (fun _ _ e => by cases e) ?_
    intro a' w' passes follows
    refine h a' w' passes ?_ follows.lastOperation
    rw [follows.request]
    exact Write.request_clearRequest ..
  · rename_i unasked
    exact h a w (.refl shows_) (Option.not_isSome_iff_eq_none.mp unasked) rfl

theorem asks_ensureFinalizer (shows_ : (ExclusiveApi.of a).Shows k w) (hv : v.key = k)
    (h : ∀ a' w', Passes k (.of a) w (.of a') w' →
      w'.status.lastOperation = w.status.lastOperation → next.Asks Q a') :
    (ensureFinalizer v next).Asks Q a := by
  unfold ensureFinalizer
  split
  · exact h a w (.refl shows_) rfl
  · refine asks_write shows_ (x := .addFinalizer v.key finalizer) hv (fun _ _ e => by cases e) ?_
    intro a' w' passes follows
    refine h a' w' passes (follows.lastOperation.trans ?_)
    simp only [Write.change]
    split <;> rfl

/-- After a record the worker shows it, whether it was written or not. -/
theorem asks_record (shows_ : (ExclusiveApi.of a).Shows k w) (s : OperationStatus)
    (h : ∀ a' w' o, Passes k (.of a) w (.of a') w' → w'.status.lastOperation = some o →
      o.kind = s.operation.kind → o.state = s.operation.state → next.Asks Q a') :
    (record k s next).Asks Q a := by
  have cached : a.caches.workers.get? k = some w := shows_.stored
  rw [record, Plan.Asks, cached]
  dsimp only
  split
  · exact asks_write shows_ (x := .operationStatus k s) rfl (fun _ _ e => by cases e)
      fun a' w' passes follows => h a' w' s.operation passes follows.lastOperation rfl rfl
  · rename_i same
    obtain ⟨o, ho, kind, state⟩ := operation_of_not_differs (eq_false_of_ne_true same)
    exact h a w o (.refl shows_) ho kind state

/-- An operation that starts is on record. If nothing is written for it, the worker was seen
with it on record, and the record is what it was. -/
theorem asks_start (shows_ : (ExclusiveApi.of a).Shows k w) (hv : v.key = k)
    (same : w.status.lastOperation = v.status.lastOperation) {kind : OperationKind}
    {phase : WorkerPhase} {description : String}
    (h : ∀ a' w' o, Passes k (.of a) w (.of a') w' → w'.status.lastOperation = some o →
      o.kind = kind → (o.state = .processing ∨ o.state = .error) → next.Asks Q a') :
    (start v kind phase description next).Asks Q a := by
  unfold start
  split
  · rename_i retry
    unfold isRetry at retry
    split at retry
    · rename_i o ho
      simp only [Bool.and_eq_true, Bool.or_eq_true, decide_eq_true_eq] at retry
      exact h a w o (.refl shows_) (same.trans ho) retry.1 retry.2
    · cases retry
  · intro now
    subst hv
    exact asks_record shows_ _ fun a' w' o passes ho kind state =>
      h a' w' o passes ho kind (.inl state)

/-- What is prepared is on record. -/
theorem asks_prepare {c : Command} (shows_ : (ExclusiveApi.of a).Shows k w) (hv : c.worker.key = k)
    (same : w.status.lastOperation = c.worker.status.lastOperation)
    (h : ∀ a' w' o, Passes k (.of a) w (.of a') w' → w'.status.lastOperation = some o →
      o.kind = operationOf c → (o.state = .processing ∨ o.state = .error) → next.Asks Q a') :
    (prepare c next).Asks Q a := by
  unfold prepare
  split
  · refine asks_ensureFinalizer shows_ hv fun a' w' passes same' => ?_
    exact asks_start passes.shows hv (same'.trans same) fun a'' w'' o passes' =>
      h a'' w'' o (passes.trans passes')
  · exact asks_start shows_ hv same h

end

/-- **An attempt makes no call but with the operation on record.** -/
theorem asks_plan (k : Key) {a : Api} (keyed : a.workers.Keyed) :
    (plan k).Asks (Intended k) a := by
  rw [plan_eq, Plan.Asks]
  cases found : a.caches.workers.get? k with
  | none => trivial
  | some w =>
    have hk : w.key = k := keyed k w found
    rw [seen, attend, Plan.Asks]
    cases present : a.caches.clusters.get? (Cluster.keyOf k.ns) with
    | none => trivial
    | some c =>
      dsimp only
      split
      · trivial
      · rename_i healthy
        rw [operate_eq]
        cases hd : due w with
        | none =>
          unfold consumeRequest
          split
          · exact (Plan.callsAtMost_write (Plan.callsAtMost_done _) _).asks
          · trivial
        | some m =>
          have shows_ : (ExclusiveApi.of a).Shows k w :=
            hk ▸ ExclusiveApi.shows_of_due (hk ▸ found) hd
          refine asks_consumeRequest shows_ fun a' w' passes consumed same => ?_
          refine asks_prepare (c := ⟨m, w, c⟩) passes.shows hk same ?_
          intro a'' w'' o passes' ho kind state
          have clusters : a''.clusters = a.clusters := (passes.trans passes').clusters
          refine ⟨⟨⟨w'', o, passes'.shows.stored, passes'.request consumed, ho, kind, state⟩, ?_,
            eq_false_of_ne_true healthy⟩, fun r a => (callsAtMost_conclude _ r).asks⟩
          rw [clusters]
          exact present

/-! ### After a failure -/

section

variable {k : Key} {w : Worker} {c : Command} {next : Plan}

theorem yields_record (h : next.Yields) (s : OperationStatus) : (record k s next).Yields := by
  intro caches
  dsimp only
  split
  · split
    · exact Plan.yields_write h _
    · exact h
  · exact Plan.yields_write h _

theorem yields_prepare (h : next.Yields) : (prepare c next).Yields := by
  have begun : (start c.worker (operationOf c) (announced c).phase
      (announced c).operation.description next).Yields := by
    unfold start
    split
    · exact h
    · exact fun now => yields_record h _
  unfold prepare
  split
  · unfold ensureFinalizer
    split
    · exact begun
    · exact Plan.yields_write begun _
  · exact begun

theorem yields_conclude (c : Command) (r : Reply) : (conclude c r).Yields := by
  have ended (r : Result) : (Plan.done r).Yields := trivial
  have released : (release c.worker.key).Yields := Plan.yields_write (ended _) _
  cases r with
  | ok data =>
    rw [conclude]
    split
    · exact released
    · refine fun now => yields_record ?_ _
      split
      · exact released
      · trivial
  | error e => exact fun now later => yields_record (ended _) _

/-- **No attempt goes on after a write that failed.** -/
theorem yields_plan (k : Key) : (plan k).Yields := by
  intro caches
  dsimp only
  split
  · trivial
  · rename_i w _
    intro caches
    dsimp only
    split
    · trivial
    · split
      · trivial
      · rename_i c _ _
        have operates : (operate w c).Yields := by
          rw [operate_eq]
          cases due w with
          | none => trivial
          | some m => exact yields_prepare fun r => yields_conclude _ r
        unfold consumeRequest
        split
        · exact Plan.yields_write operates _
        · exact operates

end

end Provision

/-! ### Attempts -/

/-- **Intent is recorded before any side effect.** Whatever is stored, whichever writes fail and
whatever the actuator answers, in an attempt on `k` every call finds the operation on record
as processing or to be tried again, the request consumed, and a cluster that has not failed;
there is one call at most; and a write that fails is the last line of the transcript, with an
error as the result. -/
theorem intent_recorded {τ : Type} (o : Setting τ) (k : Key) {a : Api} (keyed : a.workers.Keyed)
    (t : τ) :
    let out := o.play (plan k) (.opening a t)
    (∀ c a', .called c a' ∈ out.2.lines → Intended k c a') ∧
      out.2.lines.countP Line.isCall ≤ 1 ∧
      ∀ pre x e post, out.2.lines = pre ++ .wrote x (.error e) :: post →
        post = [] ∧ ∃ err, out.1 = .result (.error err) := by
  intro out
  have clean : Line.Clean (Transcript.opening a t).lines := fun _ mem => by cases mem
  have quiet : ∀ c a', Line.called c a' ∈ (Transcript.opening a t).lines → Intended k c a' :=
    fun _ _ mem => by cases mem
  have calls : out.2.lines.countP Line.isCall ≤ 0 + 1 :=
    o.calls_play (s := .opening a t) (callsAtMost_plan k)
  refine ⟨o.asks_play (asks_plan k keyed) quiet, calls, fun pre x e post he => ?_⟩
  exact o.yields_play (yields_plan k) clean he rfl

/-- A setting where calls succeed, and writes are lost after some numbers of lines. -/
def Setting.losing (lost : Nat → Bool) : Setting Unit where
  tell _ := default
  fails n _ := if lost n then some (.unavailable "down") else none
  answer _ a t := (some (.ok none), a, t)

/-- A new worker in a healthy cluster that is to be restored. -/
def Api.restoring : Api :=
  (Site.founded (Trial.Fixture.requesting "restore"
    (Trial.Fixture.worker "tenant" "pool" default))).api

/-- A restoration: the request is consumed, the finalizer put on and the operation recorded before
the call. If the record is lost there is no call. -/
theorem intent_recorded_restored :
    let out :=
      (Setting.losing fun _ => false).play (plan ⟨"tenant", "pool"⟩) (.opening .restoring ())
    let out' := (Setting.losing (· == 2)).play (plan ⟨"tenant", "pool"⟩) (.opening .restoring ())
    Api.restoring.workers.Keyed ∧
      (∃ c a, .called c a ∈ out.2.lines ∧ c.call = .restore ∧ Intended ⟨"tenant", "pool"⟩ c a) ∧
      ∃ x e, out'.2.lines[2]? = some (.wrote x (.error e)) ∧ out'.2.lines.length = 3 ∧
        ∃ err, out'.1 = .result (.error err) := by
  intro out out'
  have keyed : Api.restoring.workers.Keyed := Tracker.keyed_empty.create default _
  have called : out.2.lines[3]? = some (.called _ _) := rfl
  have lost : out'.2.lines = [_, _] ++ .wrote _ (.error _) :: [] := rfl
  obtain ⟨intended, -, -⟩ :=
    intent_recorded (Setting.losing fun _ => false) ⟨"tenant", "pool"⟩ keyed ()
  obtain ⟨-, -, last⟩ := intent_recorded (Setting.losing (· == 2)) ⟨"tenant", "pool"⟩ keyed ()
  have mem := List.mem_of_getElem? called
  exact ⟨keyed, ⟨_, _, mem, rfl, intended _ _ mem⟩, _, _, rfl, rfl, (last _ _ _ _ lost).2⟩

end PoolControl
