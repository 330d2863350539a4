import PoolControl.Proofs.Loop.Exclusive
import PoolControl.Proofs.Loop.Finalizer

/-! Workers that were handed over.

Once a migration succeeded the machines of a worker are not this instance's business, until
they are restored. What keeps attempts away from them is the worker itself: it is `Guarded`
if it has no finalizer, and is on record as migrated or in deletion. The attempt that
migrates it makes it so with two writes after the call.

`handedOver` reads off the log whether a worker is handed over, `faultless` whether anything
has gone wrong since: a write that failed, an attempt that was cut off, or a second migration
that failed. A site has `Slipped` on a key if the worker is handed over, no attempt is under
way on it, and it is not guarded. `left_alone_unless_slipped` says that this is the one way
for attempts to get at the machines, and that without a fault it does not happen. -/
namespace PoolControl

open Provision (finalizer)

/-- Whether users leave the finalizer and the record of operations as they are. -/
def KeepsRecord (old new : Worker) : Prop :=
  KeepsFinalizer old new ∧ new.status.lastOperation = old.status.lastOperation

/-- Whether no attempt that begins with this worker deletes or reconciles its machines. -/
def Guarded (w : Worker) : Prop :=
  w.metadata.hasFinalizer finalizer = false ∧
    (w.isMigrated = true ∨ w.metadata.isDeleting = true)

/-- Whether the machines of the last worker created were handed over, and not called back. -/
def handedOver : List Note → Bool
  | [] => false
  | .created _ :: _ => false
  | .called c :: rest => !(c.call = .restore && decide (Concerns c rest)) && handedOver rest
  | .replied c r :: rest =>
    (c.call = .migrate && releases c r && decide (Concerns c rest)) || handedOver rest
  | _ :: rest => handedOver rest

/-- Whether nothing has gone wrong since the last migration that succeeded. -/
def faultless : List Note → Bool
  | [] => true
  | .created _ :: _ => true
  | .called _ :: rest => faultless rest
  | .replied c r :: rest =>
    if c.call = .migrate ∧ Concerns c rest then releases c r else faultless rest
  | .lost _ :: _ => false
  | .cut _ :: _ => false

/-- Whether an entry tells of something that went wrong. -/
def Note.isFault : Note → Bool
  | .lost _ => true
  | .cut _ => true
  | .replied c r => c.call = .migrate && !releases c r
  | _ => false

theorem faultless_of_forall {log : List Note} (h : ∀ n ∈ log, n.isFault = false) :
    faultless log = true := by
  induction log with
  | nil => rfl
  | cons n rest ih =>
    obtain ⟨head, tail⟩ := List.forall_mem_cons.mp h
    cases n with
    | created => rfl
    | called => exact ih tail
    | replied c r =>
      rw [faultless]
      split
      · rename_i about
        simpa only [Note.isFault, about.1, decide_true, Bool.true_and, Bool.not_eq_false']
          using head
      · exact ih tail
    | lost => cases head
    | cut => cases head

/-! ### Guarded workers along writes -/

/-- What a worker that was guarded keeps. -/
structure Abides (w y : Worker) : Prop where
  finalizer : y.metadata.hasFinalizer finalizer = w.metadata.hasFinalizer finalizer
  migrated : y.isMigrated = w.isMigrated
  deleting : w.metadata.isDeleting = true → y.metadata.isDeleting = true

theorem Guarded.of_abides {w y : Worker} (h : Guarded w) (hy : Abides w y) : Guarded y := by
  obtain ⟨off, why⟩ := h
  exact ⟨hy.finalizer.trans off, why.imp (hy.migrated.trans ·) hy.deleting⟩

theorem KeepsRecord.isMigrated {old new : Worker} (h : KeepsRecord old new) :
    new.isMigrated = old.isMigrated := by
  unfold Worker.isMigrated
  rw [h.2]

/-- A change that keeps the finalizer and the record. -/
theorem Tracker.Follows.abides {old x y : Worker} (h : Follows old x y) (hx : KeepsRecord old x) :
    Abides old y := by
  refine ⟨?_, h.isMigrated.trans hx.isMigrated, fun deleting => ?_⟩
  · rw [h.hasFinalizer]
    exact hx.1
  · rw [h.isDeleting]
    exact deleting

theorem Tracker.Removal.abides {now : Timestamp} {old y : Worker} {v v' : Nat}
    (h : Removal now old v (some y) v') : Abides old y := by
  cases h with
  | kept => exact ⟨rfl, rfl, id⟩
  | marked => exact ⟨rfl, rfl, fun _ => rfl⟩

/-! ### The invariant -/

namespace WorkerView

variable {k : Key} {s s' : WorkerView} {strict : Bool}

/-- What is stored is guarded. -/
def Safe (s : WorkerView) : Prop := ∀ w, s.stored = some w → Guarded w

/-- The worker is handed over, and nothing has gone wrong if that is asked for as well. -/
def Trusts (strict : Bool) (s : WorkerView) : Prop :=
  handedOver s.log = true ∧ (strict = true → faultless s.log = true)

/-- What an attempt on a worker that is handed over may rely on, and keeps to. -/
def Minds (strict : Bool) (s : WorkerView) : Standing → Prop
  | .outset => s.Trusts strict → s.Safe
  | .about w _ touched =>
    s.Trusts strict →
      birth s.log ≤ w.metadata.resourceVersion ∧ Guarded w ∧ (touched = false → s.Safe)
  | .calling c => s.Trusts strict → Concerns c s.log ∧ c.call = .migrate
  | .answered c r recorded dropped =>
    s.Trusts strict →
      c.call = .migrate ∧ (faultless s.log = true → releases c r = true) ∧
        ∀ w, s.stored = some w → (recorded = true → w.isMigrated = true) ∧
          (dropped = true → w.metadata.hasFinalizer finalizer = false)
  | .ended => s.Trusts strict → faultless s.log = true → s.Safe

structure Watched (strict : Bool) (s : WorkerView) : Prop where
  dated : s.Dated
  rest : s.standing = none → s.Trusts strict → faultless s.log = true → s.Safe
  minds : ∀ a, s.standing = some a → s.Minds strict a

theorem watched_opened (strict : Bool) (v : Nat) : Watched strict ⟨none, v, none, []⟩ :=
  ⟨dated_opened v, fun _ ⟨handed, _⟩ => (by cases handed), fun _ ha => (by cases ha)⟩

/-- Under way, what the attempt minds is what has to be shown. -/
theorem Watched.of_minds {a : Standing} (dated : s.Dated) (at_ : s.standing = some a)
    (minds : s.Minds strict a) : s.Watched strict := by
  refine ⟨dated, fun free => ?_, fun b hb => ?_⟩
  · rw [at_] at free
    cases free
  · obtain rfl := Option.some.inj (at_.symm.trans hb)
    exact minds

theorem Safe.of_abides (h : s.Safe)
    (abides : ∀ y, s'.stored = some y → ∃ w, s.stored = some w ∧ Abides w y) : s'.Safe := by
  intro y hy
  obtain ⟨w, hw, same⟩ := abides y hy
  exact (h w hw).of_abides same

/-- What an attempt relies on is not taken from it by what others do to the worker. -/
theorem Minds.of_abides {a : Standing} (h : s.Minds strict a) (log : s'.log = s.log)
    (abides : ∀ y, s'.stored = some y → ∃ w, s.stored = some w ∧ Abides w y) :
    s'.Minds strict a := by
  have trusts : s'.Trusts strict ↔ s.Trusts strict := by rw [Trusts, Trusts, log]
  cases a with
  | outset => exact fun t => (h (trusts.mp t)).of_abides abides
  | about w held touched =>
    intro t
    obtain ⟨born, guarded, safe⟩ := h (trusts.mp t)
    rw [log]
    exact ⟨born, guarded, fun hh => (safe hh).of_abides abides⟩
  | calling c =>
    intro t
    rw [log]
    exact h (trusts.mp t)
  | answered c r recorded dropped =>
    intro t
    obtain ⟨migrate, released, known⟩ := h (trusts.mp t)
    rw [log]
    refine ⟨migrate, released, fun y hy => ?_⟩
    obtain ⟨w, hw, same⟩ := abides y hy
    rw [same.migrated, same.finalizer]
    exact known w hw
  | ended =>
    intro t
    rw [log]
    exact fun hf => (h (trusts.mp t) hf).of_abides abides

/-- A step that leaves attempts and log alone, and the worker as it was, keeps the
invariant. -/
theorem Watched.of_abides (h : s.Watched strict) (dated : s'.Dated) (log : s'.log = s.log)
    (standing : s'.standing = s.standing)
    (abides : ∀ y, s'.stored = some y → ∃ w, s.stored = some w ∧ Abides w y) :
    s'.Watched strict := by
  refine ⟨dated, fun free t hf => ?_, fun a ha => ?_⟩
  · rw [Trusts, log] at t
    rw [log] at hf
    rw [standing] at free
    exact (h.rest free t hf).of_abides abides
  · rw [standing] at ha
    exact (h.minds a ha).of_abides log abides

theorem Watched.look (h : s.Watched strict) {a : Standing} (at_ : s.standing = some a) :
    Watched strict { s with standing := some (a.saw s.stored) } := by
  refine .of_minds ⟨h.dated.born, h.dated.stored⟩ rfl ?_
  have minds := h.minds a at_
  cases a with
  | outset =>
    cases hw : s.stored with
    | none => exact fun _ _ w found => by cases found
    | some w =>
      refine fun t => ⟨(h.dated.stored w hw).1, minds t w hw, fun _ => ?_⟩
      rw [← hw]
      exact minds t
  | answered c r recorded dropped =>
    intro t
    obtain ⟨migrate, released, known⟩ := minds t
    refine ⟨migrate, released, fun w found => ⟨fun told => ?_, (known w found).2⟩⟩
    have found : s.stored = some w := found
    rw [found, Option.any_some, Bool.or_eq_true] at told
    exact told.elim (known w found).1 id
  | _ => exact minds

/-- What an attempt writes before the call. -/
theorem Minds.write_about {w : Worker} {held touched : Bool}
    (h : s.Minds strict (.about w held touched)) {x : Write}
    (allowed : (Standing.about w held touched).Writes k x) {old : Worker} {stored : Option Worker}
    {v : Nat} (found : s.stored = some old)
    (outcome : Tracker.Outcome old (x.change old) s.version stored v) (standing : Option Standing) :
    Minds strict ⟨stored, v, standing, s.log⟩ ((Standing.about w held touched).wrote x) := by
  cases x with
  | clearRequest k' =>
    intro t
    obtain ⟨born, guarded, safe⟩ := h t
    refine ⟨born, guarded, fun hh => (safe hh).of_abides fun y hy => ⟨old, found, ?_⟩⟩
    cases outcome with
    | kept follows => exact Option.some.inj hy ▸ follows.abides ⟨rfl, rfl⟩
    | gone => cases hy
  | addFinalizer | operationStatus =>
    intro t
    obtain ⟨born, guarded, _⟩ := h t
    exact ⟨born, guarded, fun hh => (by cases hh)⟩
  | _ => exact allowed.elim

/-- What an attempt writes after the call. -/
theorem Minds.write_answered {c : Command} {r : Reply} {recorded dropped : Bool}
    (h : s.Minds strict (.answered c r recorded dropped)) {x : Write}
    (allowed : (Standing.answered c r recorded dropped).Writes k x) {old : Worker}
    {stored : Option Worker} {v : Nat} (found : s.stored = some old)
    (outcome : Tracker.Outcome old (x.change old) s.version stored v) (standing : Option Standing) :
    Minds strict ⟨stored, v, standing, s.log⟩
      ((Standing.answered c r recorded dropped).wrote x) := by
  cases x with
  | operationStatus k' st =>
    intro t
    obtain ⟨migrate, released, known⟩ := h t
    refine ⟨migrate, released, fun y hy => ?_⟩
    cases outcome with
    | kept follows =>
      obtain rfl := Option.some.inj hy
      refine ⟨fun migrates => ?_, fun dropped => ?_⟩
      · rw [follows.isMigrated]
        exact migrates
      · rw [follows.hasFinalizer]
        exact (known old found).2 dropped
    | gone => cases hy
  | removeFinalizer k' f =>
    intro t
    obtain ⟨migrate, released, known⟩ := h t
    obtain ⟨_, rfl, _⟩ := allowed
    refine ⟨migrate, released, fun y hy => ?_⟩
    cases outcome with
    | kept follows =>
      obtain rfl := Option.some.inj hy
      refine ⟨fun recorded => ?_, fun _ => ?_⟩
      · rw [follows.isMigrated]
        exact (known old found).1 recorded
      · rw [follows.hasFinalizer]
        exact Write.hasFinalizer_removeFinalizer ..
    | gone => cases hy
  | _ => exact allowed.elim

theorem Watched.write (h : s.Watched strict) {a : Standing} {x : Write} {old : Worker}
    {stored : Option Worker} {v : Nat} (at_ : s.standing = some a) (allowed : a.Writes k x)
    (found : s.stored = some old)
    (outcome : Tracker.Outcome old (x.change old) s.version stored v) :
    Watched strict { s with stored, version := v, standing := some (a.wrote x) } := by
  refine .of_minds (h.dated.outcome found outcome _) rfl ?_
  have minds := h.minds a at_
  cases a with
  | about => exact minds.write_about allowed found outcome _
  | answered => exact minds.write_answered allowed found outcome _
  | _ => cases x <;> exact allowed.elim

/-- Only a migration or a restoration is called for a guarded worker. -/
theorem call_of_guarded {w : Worker} {held touched : Bool} {c : Command} (guarded : Guarded w)
    (allowed : (Standing.about w held touched).Calls k c) :
    c.call = .migrate ∨ c.call = .restore := by
  obtain ⟨off, why⟩ := guarded
  obtain ⟨_, _, permitted⟩ := allowed
  cases hc : c.call with
  | delete =>
    rw [hc, off] at permitted
    cases permitted.1
  | reconcile =>
    rw [hc] at permitted
    obtain ⟨_, present, here⟩ := permitted
    rw [present, here] at why
    cases why <;> contradiction
  | migrate => exact .inl rfl
  | restore => exact .inr rfl

theorem Watched.call (h : s.Watched strict) {a : Standing} {c : Command}
    (at_ : s.standing = some a) (allowed : a.Calls k c) :
    Watched strict { s with standing := some (.calling c), log := .called c :: s.log } := by
  refine .of_minds ⟨h.dated.born, h.dated.stored⟩ rfl ?_
  cases a with
  | about w held touched =>
    rintro ⟨handed, sound⟩
    obtain ⟨unrestored, handed⟩ := Bool.and_eq_true_iff.mp handed
    obtain ⟨born, guarded, _⟩ := h.minds _ at_ ⟨handed, sound⟩
    obtain rfl : c.worker = w := allowed.1
    refine ⟨born, (call_of_guarded guarded allowed).resolve_right fun restore => ?_⟩
    rw [restore, decide_eq_true (show Concerns c s.log from born)] at unrestored
    cases unrestored
  | _ => exact allowed.elim

theorem Watched.reply (h : s.Watched strict) {c : Command} (at_ : s.standing = some (.calling c))
    (r : Reply) :
    Watched strict
      { s with standing := some (.answered c r false false), log := .replied c r :: s.log } := by
  refine .of_minds ⟨h.dated.born, h.dated.stored⟩ rfl ?_
  rintro ⟨handed, sound⟩
  have unknown : ∀ w, s.stored = some w → (false = true → w.isMigrated = true) ∧
      (false = true → w.metadata.hasFinalizer finalizer = false) :=
    fun _ _ => ⟨fun e => (by cases e), fun e => (by cases e)⟩
  by_cases new : c.call = .migrate ∧ releases c r = true ∧ Concerns c s.log
  · exact ⟨new.1, fun _ => new.2.1, unknown⟩
  · have trusts : s.Trusts strict := by
      refine ⟨?_, fun hs => ?_⟩
      · rcases Bool.or_eq_true_iff.mp handed with now | before
        · simp only [Bool.and_eq_true, decide_eq_true_eq] at now
          exact absurd ⟨now.1.1, now.1.2, now.2⟩ new
        · exact before
      · have after := sound hs
        rw [faultless] at after
        split at after
        · rename_i about
          exact absurd ⟨about.1, after, about.2⟩ new
        · exact after
    obtain ⟨concerns, migrate⟩ := h.minds _ at_ trusts
    refine ⟨migrate, fun hf => ?_, unknown⟩
    rwa [faultless, if_pos ⟨migrate, concerns⟩] at hf

theorem Watched.finish (h : s.Watched strict) {a : Standing} (at_ : s.standing = some a)
    (ends : a.Ends) : Watched strict { s with standing := none } := by
  refine ⟨⟨h.dated.born, h.dated.stored⟩, fun _ t hf => ?_, fun _ ha => (by cases ha)⟩
  have minds := h.minds a at_
  cases a with
  | about w held touched => exact (minds t).2.2 ends
  | answered c r recorded dropped =>
    obtain ⟨migrate, released, known⟩ := minds t
    obtain ⟨told, off⟩ := ends migrate (released hf)
    exact fun w found => ⟨(known w found).2 off, .inl ((known w found).1 told)⟩
  | ended => exact minds t hf
  | _ => exact ends.elim

/-- **Every step keeps the invariant**, if an attempt on a worker that is handed over begins
only when the worker is guarded. -/
theorem Watched.step (h : s.Watched strict) (hs : Step KeepsRecord k s s')
    (rest : s.standing = none → s.Trusts strict → s.Safe) : s'.Watched strict := by
  have dated := h.dated.step hs
  cases hs with
  | pass => exact h.of_abides dated rfl rfl fun y hy => ⟨y, hy, rfl, rfl, id⟩
  | create =>
    refine ⟨dated, fun _ ⟨handed, _⟩ => (by cases handed), fun a _ => ?_⟩
    cases a <;> exact fun ⟨handed, _⟩ => by cases handed
  | change found allowed outcome =>
    refine h.of_abides dated rfl rfl fun y hy => ⟨_, found, ?_⟩
    cases outcome with
    | kept follows => exact Option.some.inj hy ▸ follows.abides allowed
    | gone => cases hy
  | @delete now old stored v found outcome =>
    refine h.of_abides dated rfl rfl fun y hy => ⟨old, found, ?_⟩
    obtain rfl : stored = some y := hy
    exact outcome.abides
  | begin free => exact .of_minds dated rfl (rest free)
  | look at_ => exact h.look at_
  | write at_ allowed found outcome => exact h.write at_ allowed found outcome
  | miss at_ missing =>
    refine .of_minds dated rfl fun _ _ w found => ?_
    rw [show s.stored = some w from found] at missing
    cases missing
  | lose => exact .of_minds dated rfl fun _ hf => by cases hf
  | call at_ allowed => exact h.call at_ allowed
  | reply at_ r => exact h.reply at_ r
  | finish at_ ends => exact h.finish at_ ends
  | cut => exact ⟨dated, fun _ _ hf => (by cases hf), fun _ ha => (by cases ha)⟩

end WorkerView

/-! ### Sites -/

namespace Site

variable {s s' : Site} {k : Key}

/-- Whether a worker that was handed over stands there unguarded, for any attempt to begin. -/
def Slipped (s : Site) (k : Key) : Prop :=
  s.attempts k = none ∧ handedOver (s.history k) = true ∧
    ∃ w, s.api.workers.get? k = some w ∧ ¬ Guarded w

/-- What can happen next if there is no slip. -/
def Careful (k : Key) (s s' : Site) : Prop := ¬ s.Slipped k ∧ Step KeepsRecord s s'

theorem safe_of_not_slipped {a : Option Standing} {strict : Bool} (h : ¬ s.Slipped k)
    (ha : s.Stands k a) (free : (s.view k a).standing = none)
    (trusts : (s.view k a).Trusts strict) : (s.view k a).Safe := by
  intro w found
  by_contra unguarded
  obtain rfl : a = none := free
  have free : s.attempts k = none := by
    unfold Stands at ha
    generalize s.attempts k = stage at ha
    cases ha
    rfl
  exact h ⟨free, trusts.1, w, found, unguarded⟩

/-- A worker that is handed over is at most migrated again, or restored, while its attempts
can be trusted. -/
theorem call_of_watched {strict : Bool} {a : Option Standing} (sound : s.Sound)
    (ha : s.Stands k a) (watched : (s.view k a).Watched strict)
    (trusts : (s.view k a).Trusts strict) (hs : Step KeepsRecord s s') {c : Command}
    (called : s'.log = .called c :: s.log) (key : c.worker.key = k) :
    c.call ≠ .delete ∧ c.call ≠ .reconcile := by
  obtain ⟨a', _, step⟩ := simulate sound hs ha
  have told : (s'.view k a').log = .called c :: (s.view k a).log := by
    show s'.log.filter _ = _
    rw [called]
    exact List.filter_cons_of_pos (decide_eq_true key)
  obtain ⟨b, at_, allowed⟩ := step.of_called told
  have minds := watched.minds b at_
  cases b with
  | about w held touched =>
    obtain ⟨_, guarded, _⟩ := minds trusts
    rcases WorkerView.call_of_guarded guarded allowed with e | e
    · rw [e]
      exact ⟨nofun, nofun⟩
    · rw [e]
      exact ⟨nofun, nofun⟩
  | _ => exact allowed.elim

theorem watched_of_careful (h : Relation.ReflTransGen (Careful k) opened s) :
    ∃ a, s.Stands k a ∧ (s.view k a).Watched false :=
  view_of_reaches (I := WorkerView.Watched false) (fun h => h.2) (WorkerView.watched_opened false 0)
    (fun careful ha inv hs => inv.step hs (safe_of_not_slipped careful.1 ha)) h

theorem watched_of_reaches (h : Reaches KeepsRecord opened s) (k : Key) :
    ∃ a, s.Stands k a ∧ (s.view k a).Watched true :=
  view_of_reaches (I := WorkerView.Watched true) id (WorkerView.watched_opened true 0)
    (fun _ _ inv hs => inv.step hs fun free t => inv.rest free t (t.2 rfl)) h

/-- Without a fault there is no slip. -/
theorem not_slipped_of_faultless (h : Reaches KeepsRecord opened s)
    (hf : faultless (s.history k) = true) : ¬ s.Slipped k := by
  rintro ⟨free, handed, w, found, unguarded⟩
  obtain ⟨a, ha, watched⟩ := watched_of_reaches h k
  rw [Stands, free] at ha
  cases ha
  exact unguarded (watched.rest rfl ⟨handed, fun _ => hf⟩ hf w found)

/-- A run in which nothing goes wrong has no slip. -/
theorem careful_of_reaches (h : Reaches KeepsRecord opened s)
    (clean : ∀ n ∈ s.log, n.isFault = false) : Relation.ReflTransGen (Careful k) opened s := by
  induction h with
  | refl => exact .refl
  | @tail s s' before hs ih =>
    have clean : ∀ n ∈ s.log, n.isFault = false := fun n hn => clean n (hs.log_suffix.subset hn)
    have hf : faultless (s.history k) = true :=
      faultless_of_forall fun n hn => clean n (List.mem_filter.mp hn).1
    exact (ih clean).tail ⟨not_slipped_of_faultless before hf, hs⟩

/-- A worker that is not guarded is a user's step away from having its machines deleted, or
reconciled. -/
theorem due_of_not_guarded {w : Worker} (h : ¬ Guarded w) (found : s.api.workers.get? k = some w)
    (key : w.key = k) :
    ∃ s₀ w₀ m, Step KeepsRecord s s₀ ∧ s₀.attempts = s.attempts ∧ s₀.log = s.log ∧
      (ExclusiveApi.of s₀.api).Shows k w₀ ∧ Provision.due w₀ = some m ∧
      (m = .delete ∨ m = .reconcile) := by
  by_cases held : w.metadata.hasFinalizer finalizer = true
  · -- It still has the finalizer, so its deletion is an operation of the loop.
    obtain ⟨_, outcome, _⟩ := Tracker.outcome_delete found key default
    obtain ⟨w₀, found₀, held₀⟩ := outcome.has held
    rw [found₀] at outcome
    generalize (s.api.workers.delete default k).2.version = v at outcome
    have deleting : w₀.metadata.isDeleting = true := by
      cases outcome with
      | kept _ deleting => exact deleting
      | marked => rfl
    refine ⟨_, w₀, .delete, .delete s default k, rfl, rfl, ⟨found₀, ?_, fun _ bare => ?_⟩, ?_,
      .inl rfl⟩
    · cases outcome <;> exact key
    · rw [Metadata.hasFinalizer_of_bare bare] at held₀
      cases held₀
    · rw [Provision.due, if_pos deleting, if_pos held₀]
  · -- It has not, so it is neither migrated nor in deletion, and needs no request.
    have off := eq_false_of_ne_true held
    have here : w.isMigrated = false := eq_false_of_ne_true fun e => h ⟨off, .inl e⟩
    have present : w.metadata.isDeleting = false := eq_false_of_ne_true fun e => h ⟨off, .inr e⟩
    have keeps (old : Worker) : KeepsRecord old ((Write.clearRequest k).change old) := ⟨rfl, rfl⟩
    obtain ⟨_, outcome, _⟩ := Tracker.outcome_modify found key (Write.clearRequest k).change
    generalize hs : (s.api.workers.modify k (Write.clearRequest k).change).2.get? k = stored
      at outcome
    cases outcome with
    | gone _ deleting _ =>
      rw [present] at deleting
      cases deleting
    | @kept w₀ _ follows _ _ =>
      have same := follows.abides (keeps w)
      have present₀ : w₀.metadata.isDeleting = false := by
        rw [follows.isDeleting]
        exact present
      have consumed : w₀.metadata.request? = none := by
        rw [follows.request]
        exact Write.request_clearRequest ..
      refine ⟨_, w₀, .reconcile, .change s k _ fun old _ => keeps old, rfl, rfl,
        ⟨hs, follows.key.trans key, fun deleting => ?_⟩, ?_, .inr rfl⟩
      · rw [present₀] at deleting
        cases deleting
      · rw [Provision.due, present₀, Worker.request?, consumed, same.migrated, here]
        rfl

/-- After a slip, a worker that was handed over may have its machines deleted or reconciled
without another fault. -/
theorem call_of_slipped (h : Reaches KeepsRecord opened s) (slipped : s.Slipped k) :
    ∃ s₁ s₂ d, Reaches KeepsRecord s s₁ ∧ s₁.log = s.log ∧ Step KeepsRecord s₁ s₂ ∧
      s₂.log = .called d :: s.log ∧ d.worker.key = k ∧ Concerns d (s.history k) ∧
      (d.call = .delete ∨ d.call = .reconcile) := by
  obtain ⟨free, _, w, found, unguarded⟩ := slipped
  obtain ⟨s₀, w₀, m, step₀, attempts, log, shows₀, hd, hm⟩ :=
    due_of_not_guarded unguarded found ((sound_of_reaches h).keyed k w found)
  obtain ⟨s₁, c, step₁, attempts₁, log₁, workers₁, hc, healthy⟩ := step_healthy s₀ k
  have shows₁ : (ExclusiveApi.of s₁.api).Shows k w₀ := by
    refine ⟨?_, shows₀.key, shows₀.stays⟩
    show s₁.api.workers.get? k = some w₀
    rw [workers₁]
    exact shows₀.stored
  rw [← attempts, ← attempts₁] at free
  obtain ⟨s₂, s₃, reaches, log₂, step, log₃⟩ := calls_of_due free shows₁ hc healthy hd
  have same : s₁.log = s.log := log₁.trans log
  have born := birth_le (h.tail step₀) shows₀.stored
  rw [history, log] at born
  exact ⟨s₂, s₃, ⟨m, w₀, c⟩, (reaches.head step₁).head step₀, log₂.trans same, step,
    log₃.trans (congrArg _ same), shows₀.key, born, hm⟩

/-- **A worker that was handed over is left alone exactly until there is a slip.** While
nothing has gone wrong since the migration, and more generally in runs without a slip, no
attempt deletes or reconciles its machines. After a slip an attempt may, with nothing else
going wrong and before any restoration. -/
theorem left_alone_unless_slipped (k : Key) :
    (∀ s, Reaches KeepsRecord opened s → faultless (s.history k) = true →
        ¬ s.Slipped k ∧ ∀ s' c, Step KeepsRecord s s' → s'.log = .called c :: s.log →
          c.worker.key = k → handedOver (s.history k) = true →
          c.call ≠ .delete ∧ c.call ≠ .reconcile) ∧
      (∀ s s' c, Relation.ReflTransGen (Careful k) opened s → Step KeepsRecord s s' →
        s'.log = .called c :: s.log → c.worker.key = k → handedOver (s.history k) = true →
        c.call ≠ .delete ∧ c.call ≠ .reconcile) ∧
      ∀ s, Reaches KeepsRecord opened s → s.Slipped k →
        ∃ s₁ s₂ d, Reaches KeepsRecord s s₁ ∧ s₁.log = s.log ∧ Step KeepsRecord s₁ s₂ ∧
          s₂.log = .called d :: s.log ∧ d.worker.key = k ∧ Concerns d (s.history k) ∧
          (d.call = .delete ∨ d.call = .reconcile) := by
  refine ⟨fun s h hf => ⟨not_slipped_of_faultless h hf, fun s' c hs called key handed => ?_⟩,
    fun s s' c h hs called key handed => ?_, fun s h slipped => call_of_slipped h slipped⟩
  · obtain ⟨a, ha, watched⟩ := watched_of_reaches h k
    exact call_of_watched (sound_of_reaches h) ha watched ⟨handed, fun _ => hf⟩ hs called key
  · obtain ⟨a, ha, watched⟩ := watched_of_careful h
    have sound := sound_of_reaches (h.lift id fun _ _ h => h.2)
    exact call_of_watched sound ha watched ⟨handed, fun e => by cases e⟩ hs called key

/-- A worker that is migrated and then to be restored is left alone until then. If the record
of its migration is lost, it is not. -/
theorem left_alone_unless_slipped_tenant :
    (∃ s s' c, Reaches KeepsRecord opened s ∧ ¬ s.Slipped ⟨"tenant", "pool"⟩ ∧
        Step KeepsRecord s s' ∧ s'.log = .called c :: s.log ∧
        handedOver (s.history ⟨"tenant", "pool"⟩) = true ∧
        faultless (s.history ⟨"tenant", "pool"⟩) = true ∧
        c.call ≠ .delete ∧ c.call ≠ .reconcile) ∧
      ∃ s s' d, Reaches KeepsRecord opened s ∧ s.Slipped ⟨"tenant", "pool"⟩ ∧
        Reaches KeepsRecord s s' ∧ s'.log = .called d :: s.log ∧
        (d.call = .delete ∨ d.call = .reconcile) := by
  have start : Reaches KeepsRecord opened _ :=
    reaches_founded
      (Trial.Fixture.requesting "migrate" (Trial.Fixture.worker "tenant" "pool" default))
  obtain ⟨before, call⟩ : Reaches KeepsRecord _ _ ∧ Step KeepsRecord _ _ :=
    calls_of_advance (k := ⟨"tenant", "pool"⟩) start rfl rfl
  have migrated := before.tail call
  constructor
  · have rest := rests_of_advance migrated (.ok none) rfl
    have asked := rest.tail
      (.change _ ⟨"tenant", "pool"⟩ (Trial.Fixture.requesting "restore") fun _ _ => ⟨rfl, rfl⟩)
    obtain ⟨again, call⟩ : Reaches KeepsRecord _ _ ∧ Step KeepsRecord _ _ :=
      calls_of_advance (k := ⟨"tenant", "pool"⟩) asked rfl rfl
    have careful : Relation.ReflTransGen (Careful ⟨"tenant", "pool"⟩) opened _ :=
      careful_of_reaches again (by decide)
    exact ⟨_, _, _, again, ((left_alone_unless_slipped _).1 _ again rfl).1, call, rfl, rfl,
      rfl, (left_alone_unless_slipped _).2.1 _ _ _ careful call rfl rfl rfl⟩
  · have lost := ((((migrated.tail (staged_move (.reply (.ok none)))).tail
      (staged_move (.clock default))).tail (staged_move .look)).tail
      (staged_move (.lose "down"))).tail (staged_move .finish)
    obtain ⟨s, rest, slipped⟩ :
        ∃ s, Reaches KeepsRecord opened s ∧ s.Slipped ⟨"tenant", "pool"⟩ :=
      ⟨_, lost, rfl, rfl, _, rfl, fun guarded => by rcases guarded.2 with e | e <;> cases e⟩
    obtain ⟨s₁, s₂, d, reaches, _, step, log, _, _, which⟩ :=
      (left_alone_unless_slipped _).2.2 s rest slipped
    exact ⟨s, s₂, d, rest, slipped, reaches.tail step, log, which⟩

/-- The record of a migration is lost, and the next attempt reconciles the machines that were
handed over. -/
theorem reconciled_after_migration :
    ∃ s s' c d w, Reaches KeepsRecord opened s ∧ Step KeepsRecord s s' ∧
      s.log = [.lost ⟨"tenant", "pool"⟩, .replied c (.ok none), .called c, .created w] ∧
      c.call = .migrate ∧ c.worker.key = ⟨"tenant", "pool"⟩ ∧
      handedOver (s.history ⟨"tenant", "pool"⟩) = true ∧
      s'.log = .called d :: s.log ∧ d.call = .reconcile ∧
      d.worker.key = ⟨"tenant", "pool"⟩ ∧ Concerns d (s.history ⟨"tenant", "pool"⟩) := by
  have start : Reaches KeepsRecord opened _ :=
    reaches_founded
      (Trial.Fixture.requesting "migrate" (Trial.Fixture.worker "tenant" "pool" default))
  obtain ⟨before, call⟩ : Reaches KeepsRecord _ _ ∧ Step KeepsRecord _ _ :=
    calls_of_advance (k := ⟨"tenant", "pool"⟩) start rfl rfl
  have lost := (((((before.tail call).tail (staged_move (.reply (.ok none)))).tail
    (staged_move (.clock default))).tail (staged_move .look)).tail
    (staged_move (.lose "down"))).tail (staged_move .finish)
  obtain ⟨again, call⟩ : Reaches KeepsRecord _ _ ∧ Step KeepsRecord _ _ :=
    calls_of_advance (k := ⟨"tenant", "pool"⟩) lost rfl rfl
  exact ⟨_, _, _, _, _, again, call, rfl, rfl, rfl, rfl, rfl, rfl, rfl, by decide⟩

end Site

end PoolControl
