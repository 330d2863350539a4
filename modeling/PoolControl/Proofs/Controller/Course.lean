import PoolControl.Proofs.Controller.Deployment
import PoolControl.Proofs.Loop.Mends

/-! Where an attempt leads.

Whether a worker `errs` is for the loop alone to say: users who leave the status to it, and writes
other than records of operations, let nobody err who did not (`Tracker.Retains`). An attempt under
way `Leads` to a retry, or to something else on record, at every step that it takes, unless it ends
well where the worker does not err, or finds the cluster failed (`Duty.Leads.next`). Then it
`Rests`, and leaves everything as it is. A caller that died with its key never gives it back, so
the controller does not come to rest, whatever the attempt was to lead to. -/
namespace PoolControl

/-! ### What becomes of a worker -/

namespace Tracker

/-- What users make of workers, if they leave the status to the loops and the backend as it is
meant to be. -/
def Modest (t : Tracker Worker) (backend : String) : Request Worker → Prop
  | .create _ w => w.spec.backend = backend ∧ w.status = default
  | .update w => ∀ old ∈ t.get? w.key, w.spec.backend = backend ∧ w.status = old.status
  | .modify k f => ∀ old ∈ t.get? k, (f old).spec.backend = backend ∧ (f old).status = old.status
  | .delete _ _ => True

instance (t : Tracker Worker) (backend : String) : DecidablePred (t.Modest backend)
  | .create _ w => inferInstanceAs (Decidable (w.spec.backend = backend ∧ w.status = default))
  | .update w => inferInstanceAs (Decidable (∀ old ∈ t.get? w.key,
      w.spec.backend = backend ∧ w.status = old.status))
  | .modify k f => inferInstanceAs (Decidable (∀ old ∈ t.get? k,
      (f old).spec.backend = backend ∧ (f old).status = old.status))
  | .delete .. => .isTrue trivial

/-- A worker that is not in deletion errs if it did before. -/
def Retains (t t' : Tracker Worker) (k : Key) : Prop :=
  ∀ y, t'.get? k = some y → y.metadata.isDeleting = false →
    t.get? k = none ∧ y.errs = false ∨ ∃ old, t.get? k = some old ∧ y.errs = old.errs

variable {t t' : Tracker Worker} {k : Key} {backend : String}

theorem Retains.of_same (h : t'.get? k = t.get? k) : t.Retains t' k :=
  fun y found _ => .inr ⟨y, h.symm.trans found, rfl⟩

theorem Follows.errs {old x y : Worker} (h : Follows old x y)
    (same : x.status.lastOperation = old.status.lastOperation) : y.errs = old.errs := by
  rw [Worker.errs, Worker.errs, h.isDeleting, h.lastOperation, same]

/-- A change that leaves the last operation. -/
theorem retains_modify (keyed : t.Keyed) (k' : Key) {f : Worker → Worker}
    (same : ∀ old, t.get? k' = some old → (f old).status.lastOperation = old.status.lastOperation) :
    t.Retains (t.modify k' f).2 k := by
  cases found : t.get? k' with
  | none => exact .of_same (by rw [modify_of_missing found])
  | some old =>
    obtain ⟨-, outcome, others⟩ := outcome_modify found (keyed k' old found) f
    by_cases hk : k = k'
    · subst hk
      intro y stored _
      rw [stored] at outcome
      cases outcome with
      | kept follows => exact .inr ⟨old, found, follows.errs (same old found)⟩
    · exact .of_same (others k hk)

theorem retains_delete (keyed : t.Keyed) (now : Timestamp) (k' : Key) :
    t.Retains (t.delete now k').2 k := by
  cases found : t.get? k' with
  | none => exact .of_same (by rw [delete_of_missing found])
  | some old =>
    obtain ⟨-, removal, others⟩ := outcome_delete found (keyed k' old found) now
    by_cases hk : k = k'
    · subst hk
      intro y stored present
      rw [stored] at removal
      generalize (t.delete now k).2.version = v at removal
      cases removal with
      | kept => exact .inr ⟨old, found, rfl⟩
      | marked => cases present
    · exact .of_same (others k hk)

theorem retains_create (now : Timestamp) {x : Worker} (fresh : x.status = default) :
    t.Retains (t.create now x).2 k := by
  rcases create_cases t now x with ⟨e, he⟩ | ⟨free, y, t', he, hy, -, stored⟩
  · exact .of_same (by rw [he])
  · intro z found _
    rw [he, stored] at found
    split at found
    · rename_i hk
      obtain rfl := Option.some.inj found
      refine .inl ⟨hk ▸ free, ?_⟩
      rw [hy, Worker.errs, fresh]
      exact Bool.and_false _
    · exact .inr ⟨z, found, rfl⟩

/-- **Modest users let nobody err who did not.** -/
theorem retains_answer (keyed : t.Keyed) {r : Request Worker} (modest : t.Modest backend r) :
    t.Retains (t.answer r) k := by
  cases r with
  | create now x => exact retains_create now modest.2
  | update x =>
    exact retains_modify keyed x.key fun old found => by rw [(modest old found).2]
  | modify k' f => exact retains_modify keyed k' fun old found => by rw [(modest old found).2]
  | delete now k' => exact retains_delete keyed now k'

/-- Modest users keep every worker at the backend. -/
theorem backend_answer {r : Request Worker} (modest : t.Modest backend r)
    (h : ∀ k w, t.get? k = some w → w.spec.backend = backend) (k : Key) (w : Worker)
    (stored : (t.answer r).get? k = some w) : w.spec.backend = backend := by
  cases r with
  | create now x =>
    rcases found_create stored with old | ⟨m, rfl⟩
    · exact h k w old
    · exact modest.1
  | update x =>
    rcases found_modify stored with same | ⟨old, m, found, rfl⟩
    · exact h k w same
    · exact (modest old found).1
  | modify k' f =>
    rcases found_modify stored with same | ⟨old, m, found, rfl⟩
    · exact h k w same
    · exact (modest old found).1
  | delete now k' =>
    rcases found_delete stored with same | ⟨old, m, found, rfl⟩
    · exact h k w same
    · exact h k' old found

end Tracker

/-- A write of a loop other than a record of operations. -/
theorem Api.retains_write {a : Api} (keyed : a.workers.Keyed) {w : Write}
    (other : ∀ k s, w ≠ .operationStatus k s) (k : Key) :
    a.workers.Retains (a.write w).2.workers k := by
  rw [Api.workers_write]
  refine Tracker.retains_modify keyed w.key fun old _ => ?_
  cases w with
  | operationStatus k s => exact absurd rfl (other k s)
  | addFinalizer k f =>
    simp only [Write.change]
    split <;> rfl
  | _ => rfl

/-! ### What becomes of a cluster -/

/-- Whether the event of a cluster is more than an update that left the phase as it was. -/
def Event.Shifts (e : Event Cluster) : Prop :=
  ∀ old, e.old? = some old → old.status.phase ≠ e.object.status.phase

/-- Whether the cluster of a key is there and failed. -/
def Tracker.Fails (t : Tracker Cluster) (k : Key) : Prop :=
  ∃ c, t.get? (Cluster.keyOf k.ns) = some c ∧ c.isFailed = true

/-- **The end of a failure is told.** -/
theorem Tracker.Fed.fails_answer {t : Tracker Cluster} {id : Nat} (h : t.Fed id)
    (r : Request Cluster) {k : Key} (fails : t.Fails k) :
    (t.answer r).Fails k ∨
      ∃ e, e ∈ (t.answer r).pending id ∧ e.Shifts ∧ e.object.metadata.name = k.ns := by
  obtain ⟨c, found, failed⟩ := fails
  rcases h.answer_cases r with same | ⟨e, admitted, pending, stored⟩
  · rw [same]
    exact .inl ⟨c, found, failed⟩
  · by_cases about : Cluster.keyOf k.ns = e.key
    · have named : e.object.metadata.name = k.ns := (congrArg Key.name about).symm
      have told : e ∈ (t.answer r).pending id := by
        rw [pending]
        exact List.mem_append_right _ (List.mem_singleton_self e)
      have found : t.store.get? e.key = some c := about ▸ found
      cases admitted with
      | @updated old new found' =>
        obtain rfl := Option.some.inj (found'.symm.trans found)
        by_cases still : new.isFailed = true
        · exact .inl ⟨new, (stored _).trans (if_pos about), still⟩
        · refine .inr ⟨_, told, fun old he same => still ?_, named⟩
          cases he
          unfold Cluster.isFailed at failed ⊢
          rwa [← show old.status.phase = new.status.phase from same]
      | _ => exact .inr ⟨_, told, fun old he => (nomatch he), named⟩
    · exact .inl ⟨c, (stored _).trans ((if_neg about).trans found), failed⟩

/-! ### Where an attempt leads -/

/-- An attempt that leads to a retry, or to something else on record, unless its caller dies with
the key. `errs` says whether the worker of the key errs. -/
inductive Duty.Leads (k : Key) (errs : Prop) : Duty → Prop
  | begun : Leads k errs (.visiting (.going (Provision.plan k)))
  | seen {w : Worker} (key : w.key = k) (known : w.errs = false → ¬ errs) :
      Leads k errs (.visiting (.going (Provision.attend k w)))
  | going {p : Plan} {known : Bool} (mends : p.Mends k known) (settled : known = true → ¬ errs) :
      Leads k errs (.visiting (.going p))
  | calling {c : Command} {next : Reply → Plan} {known : Bool}
      (mends : ∀ r, (next r).Mends k known) (settled : known = true → ¬ errs) :
      Leads k errs (.visiting (.calling c next))
  | retrying {todo : List Closing} : Leads k errs (.closing (.addRateLimited :: todo))
  | crashed : Leads k errs .crashed

/-- An attempt that is over, and will leave everything as it is. -/
inductive Duty.Rests : Duty → Prop
  | skipped : Rests (.visiting (.going (.done (.ok .done))))
  | closing {todo : List Closing} : Rests (.closing todo)
  | crashed : Rests .crashed

theorem Duty.Leads.mono {k : Key} {errs errs' : Prop} {b : Duty} (h : b.Leads k errs)
    (fewer : errs' → errs) : b.Leads k errs' := by
  cases h with
  | begun => exact .begun
  | seen key known => exact .seen key fun calm e => known calm (fewer e)
  | going mends settled => exact .going mends fun calm e => settled calm (fewer e)
  | calling mends settled => exact .calling mends fun calm e => settled calm (fewer e)
  | retrying => exact .retrying
  | crashed => exact .crashed

/-- Whether the worker under a key errs. -/
def Tracker.Errs (t : Tracker Worker) (k : Key) : Prop := ∃ w, t.get? k = some w ∧ w.errs = true

/-- Whether there is a worker under a key that is not in deletion. -/
def Tracker.Stays (t : Tracker Worker) (k : Key) : Prop :=
  ∃ w, t.get? k = some w ∧ w.metadata.isDeleting = false

namespace Tracker

variable {t t' : Tracker Worker} {k : Key}

theorem errs_iff_of_found {w : Worker} (found : t.get? k = some w) :
    t.Errs k ↔ w.errs = true := by
  refine ⟨fun ⟨w', found', errs⟩ => ?_, fun errs => ⟨w, found, errs⟩⟩
  obtain rfl := Option.some.inj (found.symm.trans found')
  exact errs

theorem Errs.stays (h : t.Errs k) : t.Stays k := by
  obtain ⟨w, found, errs⟩ := h
  exact ⟨w, found, Worker.present_of_errs errs⟩

theorem Retains.errs (h : t.Retains t' k) (errs : t'.Errs k) : t.Errs k := by
  obtain ⟨y, found, he⟩ := errs
  rcases h y found (Worker.present_of_errs he) with ⟨-, calm⟩ | ⟨old, found', same⟩
  · cases calm.symm.trans he
  · exact ⟨old, found', same.symm.trans he⟩

theorem Retains.still (h : t.Retains t' k) (errs : t.Errs k) (stays : t'.Stays k) : t'.Errs k := by
  obtain ⟨y, found, present⟩ := stays
  obtain ⟨old, found', errs⟩ := errs
  rcases h y found present with ⟨free, -⟩ | ⟨old', same, he⟩
  · cases free.symm.trans found'
  · obtain rfl := Option.some.inj (same.symm.trans found')
    exact ⟨y, found, he.trans errs⟩

end Tracker

/-- A write that is carried out tells what it is to tell. -/
theorem Api.not_errs_write {a : Api} (keyed : a.workers.Keyed) {w : Write} {k : Key}
    (hk : w.key = k) {known : Bool} (settled : known = true → ¬ a.workers.Errs k)
    (mends : w.mends known = true) : ¬ (a.write w).2.workers.Errs k := by
  subst hk
  rintro ⟨y, stored, errs⟩
  cases w with
  | operationStatus k s =>
    cases found : a.workers.get? k with
    | none =>
      rw [Api.write_of_missing found] at stored
      cases found.symm.trans stored
    | some old =>
      obtain ⟨-, outcome, -⟩ :=
        Api.outcome_write (w := .operationStatus k s) found (keyed k old found)
      rw [show (a.write _).2.workers.get? _ = some y from stored] at outcome
      cases outcome with
      | kept follows =>
        have other : s.operation.state ≠ .error := of_decide_eq_true mends
        have told : y.status.lastOperation = some s.operation := follows.lastOperation
        rw [Worker.errs, told, Option.any_some, decide_eq_false other, Bool.and_false] at errs
        cases errs
  | _ =>
    refine settled mends ((Api.retains_write keyed (fun k s same => ?_) _).errs ⟨y, stored, errs⟩)
    cases same

/-! ### Steps -/

section

variable {a : Api} {k : Key} {known : Bool}

/-- An attempt looks its worker up. -/
theorem AttemptState.leads_plan (keyed : a.workers.Keyed) (cue : Cue) :
    ((AttemptState.going (Provision.plan k)).next a cue).1.Leads k (a.workers.Errs k) := by
  cases found : a.workers.get? k with
  | none =>
    have looked : a.caches.workers.get? k = none := found
    simp only [Provision.plan, AttemptState.next, looked]
    refine .going (.inl rfl) fun _ errs => ?_
    obtain ⟨w, stored, -⟩ := errs
    cases found.symm.trans stored
  | some w =>
    have looked : a.caches.workers.get? k = some w := found
    simp only [Provision.plan, AttemptState.next, looked]
    refine .seen (keyed k w found) fun calm errs => ?_
    have errs := (Tracker.errs_iff_of_found found).mp errs
    cases calm.symm.trans errs

/-- An attempt that has seen its worker looks its cluster up. -/
theorem AttemptState.leads_attend {w : Worker} (key : w.key = k)
    (known : w.errs = false → ¬ a.workers.Errs k) (cue : Cue) :
    ((AttemptState.going (Provision.attend k w)).next a cue).2 = a ∧
      (((AttemptState.going (Provision.attend k w)).next a cue).1.Leads k (a.workers.Errs k) ∨
        ((AttemptState.going (Provision.attend k w)).next a cue).1.Rests ∧ a.clusters.Fails k) := by
  refine ⟨rfl, ?_⟩
  cases found : a.clusters.get? (Cluster.keyOf k.ns) with
  | none =>
    have looked : a.caches.clusters.get? (Cluster.keyOf k.ns) = none := found
    simp only [Provision.attend, AttemptState.next, looked]
    exact .inl (@Duty.Leads.going k _ _ false (.inr ⟨_, rfl⟩) fun calm => by cases calm)
  | some c =>
    have looked : a.caches.clusters.get? (Cluster.keyOf k.ns) = some c := found
    simp only [Provision.attend, AttemptState.next, looked]
    by_cases failed : c.isFailed = true
    · rw [if_pos failed]
      exact .inr ⟨.skipped, c, found, failed⟩
    · rw [if_neg failed]
      refine .inl (.going (Provision.mends_consumeRequest (Provision.mends_operate key)) ?_)
      exact fun calm => known ((Bool.not_eq_true' _).mp calm)

/-- An attempt writes, or fails to. -/
theorem AttemptState.leads_write (keyed : a.workers.Keyed) {w : Write}
    {next : Except ApiError Unit → Plan} (mends : (Plan.write w next).Mends k known)
    (settled : known = true → ¬ a.workers.Errs k) (cue : Cue) :
    ((AttemptState.going (.write w next)).next a cue).1.Leads k
      (((AttemptState.going (.write w next)).next a cue).2.workers.Errs k) := by
  obtain ⟨key, done, failed⟩ := mends
  have refused {e : ApiError} (other : ∀ kind k', e ≠ .alreadyExists kind k') :
      (Duty.visiting (.going (next (.error e)))).Leads k (a.workers.Errs k) :=
    .going (failed e other) settled
  unfold AttemptState.next
  cases cue.lost with
  | some reason => exact refused fun _ _ same => by cases same
  | none =>
    dsimp only
    cases found : a.workers.get? w.key with
    | none =>
      rw [Api.write_of_missing found]
      exact refused fun _ _ same => by cases same
    | some old =>
      obtain ⟨ok, -, -⟩ := Api.outcome_write found (keyed _ _ found)
      rw [ok]
      exact .going done (Api.not_errs_write keyed key settled)

/-- **The next step of an attempt that leads somewhere leads there, too**, unless it ends well and
the worker does not err, or it finds the cluster failed. -/
theorem Duty.Leads.next (keyed : a.workers.Keyed) {stage : AttemptState}
    (h : (Duty.visiting stage).Leads k (a.workers.Errs k)) (cue : Cue) :
    (stage.next a cue).1.Leads k ((stage.next a cue).2.workers.Errs k) ∨
      (stage.next a cue).1.Rests ∧ (stage.next a cue).2 = a ∧
        (a.workers.Errs k →
          a.clusters.Fails k ∧ ∃ w, stage = .going (Provision.attend k w)) := by
  cases h with
  | begun => exact .inl (AttemptState.leads_plan keyed cue)
  | @seen w key known =>
    obtain ⟨same, leads | ⟨rests, fails⟩⟩ := AttemptState.leads_attend key known cue
    · rw [same]
      exact .inl leads
    · exact .inr ⟨rests, same, fun _ => ⟨fails, w, rfl⟩⟩
  | @going p known mends settled =>
    cases p with
    | done r =>
      rcases mends with calm | ⟨reason, rfl⟩
      · exact .inr ⟨.closing, rfl, fun errs => absurd errs (settled calm)⟩
      · exact .inl .retrying
    | look next =>
      refine .inl (.going (mends a.caches) fun calm => ?_)
      rcases (Bool.or_eq_true _ _).mp calm with calm | shown
      · exact settled calm
      · rintro ⟨w, stored, errs⟩
        have stored : a.caches.workers.get? k = some w := stored
        rw [stored, Option.any_some, errs] at shown
        cases shown
    | clock next => exact .inl (.going (mends cue.now) settled)
    | write w next => exact .inl (AttemptState.leads_write keyed mends settled cue)
    | actuate c next => exact .inl (.calling mends settled)
  | @calling c next known mends settled =>
    left
    unfold AttemptState.next
    cases cue.reply with
    | none => exact .retrying
    | some r => exact .going (mends r) settled

end

/-- An attempt that is over and yet leads somewhere has left a worker that does not err. -/
theorem Duty.Leads.not_errs_of_rests {k : Key} {errs : Prop} {stage : AttemptState}
    (h : (Duty.visiting stage).Leads k errs) (rests : (Duty.visiting stage).Rests) : ¬ errs := by
  cases rests
  generalize hp : Plan.done (.ok .done) = p at h
  cases h with
  | begun | seen => cases hp
  | going mends settled =>
    subst hp
    rcases mends with calm | ⟨reason, failed⟩
    · exact settled calm
    · cases failed

/-- Once an attempt is over, nothing comes of it. -/
theorem Duty.Rests.next {stage : AttemptState} (h : (Duty.visiting stage).Rests) (a : Api)
    (cue : Cue) :
    (stage.next a cue).1.Rests ∧ (stage.next a cue).2 = a := by
  cases h
  exact ⟨.closing, rfl⟩

/-- An attempt that finds the cluster failed is over. -/
theorem AttemptState.next_attend {a : Api} {k : Key} (fails : a.clusters.Fails k) (w : Worker)
    (cue : Cue) :
    ((AttemptState.going (Provision.attend k w)).next a cue).1.Rests ∧
      ((AttemptState.going (Provision.attend k w)).next a cue).2 = a := by
  obtain ⟨c, found, failed⟩ := fails
  have found : a.caches.clusters.get? (Cluster.keyOf k.ns) = some c := found
  simp only [Provision.attend, AttemptState.next, found, failed, if_true]
  exact ⟨.skipped, trivial⟩

end PoolControl
