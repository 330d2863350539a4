import PoolControl.Proofs.Loop.Migration
import PoolControl.Proofs.Loop.Turn

/-! What the actuator has seen of a worker.

The observed generation is that of the worker which the actuator was called with, and the spec
may have changed by the time it is recorded. `Precedes` compares the two: generations only grow,
and as long as the generation stays so does the spec. It is kept by every change, deletion and
write, so it still relates the worker of the call to the one that is stored when the record is
written, however often the spec was changed in between.

A worker `serves` if an operation that brings machines in line is on record as succeeded. Before
such an operation calls the actuator the worker no longer does: the operation was announced, or
is a retry. `Plan.Quiets` threads that knowledge through the plan of an attempt. So a record that
serves is of the last call that succeeded (`Honest`), and a call that succeeds but is not
recorded leaves no record behind that it would prove wrong.

A record is written by key, whatever the uid of the worker there. So if the worker that an
attempt has looked at is deleted and created again before the call, the attempt puts the
generation of the old one on record for the new one, which the actuator has never seen
(`observed_generation_recreated`). `Serves` leaves that out: under it a worker is created while an
attempt on its key waits for the actuator or has not looked yet, or when there is none. All else,
changes and deletions as well, may happen between any two steps, and then `observed_generation`
holds. -/
namespace PoolControl

open Provision (finalizer)

/-! ### Generations -/

/-- The generation of `w` is not below that of `v`, and if it is the same so is the spec. -/
structure Precedes (v w : Worker) : Prop where
  le : v.metadata.generation ≤ w.metadata.generation
  same : v.metadata.generation = w.metadata.generation → Resource.sameSpec v w = true

theorem Precedes.refl (w : Worker) : Precedes w w := ⟨Int.le_refl _, fun _ => decide_eq_true rfl⟩

theorem Precedes.trans {u v w : Worker} (h : Precedes u v) (h' : Precedes v w) : Precedes u w := by
  refine ⟨Int.le_trans h.le h'.le, fun same => ?_⟩
  have first := h.same (Int.le_antisymm h.le (same ▸ h'.le))
  have last := h'.same (Int.le_antisymm h'.le (same ▸ h.le))
  exact decide_eq_true ((of_decide_eq_true first).trans (of_decide_eq_true last))

namespace Tracker

variable {t : Tracker Worker} {k : Key} {old y : Worker}

/-- A change raises the generation if it changes the spec. -/
theorem precedes_numbered (v : Nat) (old : Worker) (f : Worker → Worker) :
    Precedes old (numbered v old (proposed old f)) := by
  by_cases same : Resource.sameSpec old (proposed old f) = true
  · have generation : (numbered v old (proposed old f)).metadata.generation =
        old.metadata.generation := if_pos same
    exact ⟨Int.le_of_eq generation.symm, fun _ => same⟩
  · have generation : (numbered v old (proposed old f)).metadata.generation =
        old.metadata.generation + 1 := if_neg same
    exact ⟨by omega, fun equal => by omega⟩

/-- What a change leaves follows the worker as it was, with the record that was asked for. -/
theorem precedes_modify (found : t.get? k = some old) (hk : old.key = k) {f : Worker → Worker}
    (left : (t.modify k f).2.get? k = some y) :
    Precedes old y ∧ y.status.lastOperation = (f old).status.lastOperation ∧
      y.status.observedGeneration = (f old).status.observedGeneration := by
  rcases left_modify found hk left with ⟨same, rfl⟩ | ⟨rfl, -⟩
  · have asked : (proposed y f).unsigned = y.unsigned := of_decide_eq_true same
    exact ⟨.refl y, (congrArg (fun w : Worker => w.status.lastOperation) asked).symm,
      (congrArg (fun w : Worker => w.status.observedGeneration) asked).symm⟩
  · exact ⟨precedes_numbered _ _ _, rfl, rfl⟩

theorem precedes_delete (found : t.get? k = some old) (hk : old.key = k) {now : Timestamp}
    (left : (t.delete now k).2.get? k = some y) :
    Precedes old y ∧ y.status = old.status := by
  rcases left_delete found hk left with rfl | ⟨rfl, -⟩
  · exact ⟨.refl y, rfl⟩
  · have generation : (marked (t.version + 1) now old).metadata.generation =
        old.metadata.generation + 1 := rfl
    exact ⟨⟨by omega, fun equal => by omega⟩, rfl⟩

end Tracker

/-! ### Records that serve -/

/-- An operation that brings machines in line has succeeded. -/
def LastOperation.serves (o : LastOperation) : Bool :=
  o.succeeded && (o.kind = .create || o.kind = .reconcile || o.kind = .restore)

def Worker.serves (w : Worker) : Bool := w.status.lastOperation.any LastOperation.serves

/-- The worker of the last call for it that was to bring machines in line and succeeded. The log
has the newest entry first. -/
def lastServed : List Note → Option Worker
  | [] => none
  | .created _ :: _ => none
  | .replied c (.ok _) :: rest => if Idle.creates c.call then some c.worker else lastServed rest
  | _ :: rest => lastServed rest

/-- Whether users leave the finalizer, the record of operations and the observed generation as
they are. -/
def KeepsStatus (old new : Worker) : Prop :=
  KeepsRecord old new ∧ new.status.observedGeneration = old.status.observedGeneration

namespace Provision

/-- Of the records that follow a call, one that serves has the generation that the call saw, and
any other has none. -/
theorem outcome_cases (c : Command) (r : Reply) (there : c.call = .delete → releases c r = false) :
    (Idle.creates c.call = true ∧ (∃ data, r = .ok data) ∧
        (outcome c r).observedGeneration = some c.worker.metadata.generation) ∨
      (outcome c r).observedGeneration = none ∧ (outcome c r).operation.serves = false := by
  cases r with
  | ok data =>
    cases hc : c.call with
    | reconcile | restore => exact .inl ⟨rfl, ⟨data, rfl⟩, by simp [outcome, hc]⟩
    | migrate =>
      refine .inr ?_
      simp [outcome, hc, LastOperation.serves]
    | delete =>
      have gone := there hc
      simp [releases, hc] at gone
  | error e =>
    refine .inr ⟨rfl, ?_⟩
    cases h : e.isRetryable <;> simp [outcome, LastOperation.serves, LastOperation.succeeded, h]

end Provision

theorem LastOperation.serves_congr {o o' : LastOperation} (kind : o.kind = o'.kind)
    (state : o.state = o'.state) : o.serves = o'.serves := by
  simp only [serves, succeeded, kind, state]

/-! ### What is known before a call -/

/-- Whether the worker is known not to serve after a write, given whether it was before. -/
def Write.quiets (known : Bool) : Write → Bool
  | .operationStatus _ s => !s.operation.serves
  | _ => known

/-- A plan calls for machines to be brought in line only when the worker under `k` is known not
to serve. It may or may not be known to begin with. -/
def Plan.Quiets (k : Key) : Bool → Plan → Prop
  | _, .done _ => True
  | known, .look next =>
    ∀ caches : Caches, Quiets k (known || !(caches.workers.get? k).any Worker.serves) (next caches)
  | known, .clock next => ∀ now, Quiets k known (next now)
  | known, .write x next =>
    Quiets k (x.quiets known) (next (.ok ())) ∧ ∀ e, Quiets k known (next (.error e))
  | known, .actuate c _ => Idle.creates c.call = true → known = true

namespace Provision

variable {k : Key} {w : Worker} {c : Command} {next : Plan} {known known' : Bool}

/-- The more is known to begin with, the better. -/
theorem quiets_mono {p : Plan} (hp : p.Quiets k known) (h : known = true → known' = true) :
    p.Quiets k known' := by
  induction p generalizing known known' with
  | done r => trivial
  | look next ih =>
    refine fun caches => ih caches (hp caches) ?_
    simp only [Bool.or_eq_true]
    exact Or.imp_left h
  | clock next ih => exact fun now => ih now (hp now) h
  | write x next ih =>
    refine ⟨ih _ hp.1 ?_, fun e => ih _ (hp.2 e) h⟩
    cases x with
    | operationStatus => exact id
    | _ => exact h
  | actuate c next => exact fun creates => h (hp creates)

theorem quiets_write {x : Write} (h : next.Quiets k (x.quiets known)) :
    (Plan.write x (Plan.unlessError next)).Quiets k known :=
  ⟨h, fun _ => trivial⟩

/-- A record that does not serve is there afterwards, written or seen. -/
theorem quiets_record {s : OperationStatus} (hs : s.operation.serves = false)
    (h : next.Quiets k true) : (record k s next).Quiets k known := by
  have written : ∀ known, (Plan.write (.operationStatus k s) (Plan.unlessError next)).Quiets k
      known := fun known => quiets_write (by rw [Write.quiets, hs]; exact h)
  intro caches
  dsimp only
  cases found : caches.workers.get? k with
  | none => exact written _
  | some w =>
    dsimp only
    split
    · exact written _
    · rename_i same
      obtain ⟨o, ho, kind, state⟩ := operation_of_not_differs (eq_false_of_ne_true same)
      have quiet : w.serves = false := by
        rw [Worker.serves, ho, Option.any_some, LastOperation.serves_congr kind state, hs]
      rw [Option.any_some, quiet, Bool.not_false, Bool.or_true]
      exact h

/-- What is tried again has not succeeded. -/
theorem serves_of_isRetry {kind : OperationKind} (retry : isRetry w.status kind = true) :
    w.serves = false := by
  unfold isRetry at retry
  split at retry
  · rename_i o ho
    rw [Worker.serves, ho, Option.any_some, LastOperation.serves, LastOperation.succeeded]
    simp only [Bool.and_eq_true, Bool.or_eq_true, decide_eq_true_eq] at retry
    rcases retry.2 with state | state <;> simp [state]
  · cases retry

theorem quiets_prepare (hk : c.worker.key = k) (seen : c.worker.serves = false → known = true)
    (h : next.Quiets k true) : (prepare c next).Quiets k known := by
  have begun {known : Bool} (seen : c.worker.serves = false → known = true) :
      (start c.worker (operationOf c) (announced c).phase (announced c).operation.description
        next).Quiets k known := by
    unfold start
    split
    · rename_i retry
      exact quiets_mono h fun _ => seen (serves_of_isRetry retry)
    · intro now
      rw [hk]
      exact quiets_record rfl h
  unfold prepare
  split
  · unfold ensureFinalizer
    split
    · exact begun seen
    · exact quiets_write (begun seen)
  · exact begun seen

/-- **When an attempt calls for machines the worker does not serve.** -/
theorem quiets_attend (hk : w.key = k) (seen : w.serves = false → known = true) :
    (attend k w).Quiets k known := by
  intro caches
  have seen : w.serves = false →
      (known || !(caches.workers.get? k).any Worker.serves) = true := fun quiet => by
    rw [seen quiet, Bool.true_or]
  dsimp only
  split
  · trivial
  · rename_i c _
    split
    · trivial
    · have operates : (operate w c).Quiets k
          (known || !(caches.workers.get? k).any Worker.serves) := by
        rw [operate_eq]
        cases due w with
        | none => trivial
        | some m => exact quiets_prepare (c := ⟨m, w, c⟩) hk seen fun _ => rfl
      unfold consumeRequest
      split
      · exact quiets_write operates
      · exact operates

end Provision

/-! ### What is stored and what is under way -/

/-- What a stored worker tells of what was seen of it is true. -/
structure Honest (log : List Note) (w : Worker) : Prop where
  observed : w.status.observedGeneration ≤ w.metadata.generation
  served : w.serves = true → ∃ v, lastServed log = some v ∧
    birth log ≤ v.metadata.resourceVersion ∧
    w.status.observedGeneration = v.metadata.generation ∧ Precedes v w

/-- A new worker has observed nothing. -/
theorem Honest.created {w : Worker} {log : List Note} (new : w.status = default)
    (first : w.metadata.generation = 1) : Honest log w := by
  refine ⟨?_, fun serves => ?_⟩
  · rw [new, first]
    decide
  · rw [Worker.serves, new] at serves
    cases serves

/-- What is stored has come from the worker `u`. -/
structure Met (stored : Option Worker) (log : List Note) (u : Worker) : Prop where
  born : birth log ≤ u.metadata.resourceVersion
  precedes : ∀ w, stored = some w → Precedes u w

/-- What an attempt relies on. -/
inductive Relies (k : Key) (stored : Option Worker) (log : List Note) : AttemptState → Prop
  | outset : Relies k stored log (.going (Provision.plan k))
  | ended {r : Result} : Relies k stored log (.going (.done r))
  | before {p : Plan} {u : Worker} {known : Bool}
      (leads : p.LeadsTo (Provision.Prepares k u) fun c next =>
        c.worker = u ∧ Provision.due u = some c.call ∧ next = Provision.conclude c)
      (quiets : p.Quiets k known) (met : Met stored log u)
      (quiet : known = true → ∀ w, stored = some w → w.serves = false) :
      Relies k stored log (.going p)
  /-- The finalizer keeps the worker there. -/
  | calling {c : Command}
      (fits : Idle.creates c.call = true → Met stored log c.worker ∧ owes log = true ∧
        ∀ w, stored = some w → w.serves = false) :
      Relies k stored log (.calling c (Provision.conclude c))
  | answered {p : Plan} {c : Command} {r : Reply} (only : p.Only (Provision.Settles c r))
      (called : p.CallsAtMost 0)
      (fits : Idle.creates c.call = true → (∃ data, r = .ok data) →
        lastServed log = some c.worker ∧ Met stored log c.worker) : Relies k stored log (.going p)

/-- What was there before is what is there, or what became of it without a record. -/
def Keeps (stored stored' : Option Worker) : Prop :=
  ∀ y, stored' = some y → ∃ old, stored = some old ∧ Precedes old y ∧
    y.status.lastOperation = old.status.lastOperation ∧
    y.status.observedGeneration = old.status.observedGeneration

section

variable {k : Key} {stored stored' : Option Worker} {log : List Note}

theorem Worker.serves_congr {w y : Worker}
    (same : y.status.lastOperation = w.status.lastOperation) : y.serves = w.serves := by
  rw [serves, serves, same]

theorem Met.keeps {u : Worker} (h : Met stored log u) (keeps : Keeps stored stored') :
    Met stored' log u := by
  refine ⟨h.born, fun y hy => ?_⟩
  obtain ⟨old, found, precedes, -⟩ := keeps y hy
  exact (h.precedes old found).trans precedes

theorem Keeps.quiet (keeps : Keeps stored stored')
    (quiet : ∀ w, stored = some w → w.serves = false) :
    ∀ w, stored' = some w → w.serves = false := fun y hy => by
  obtain ⟨old, found, -, same, -⟩ := keeps y hy
  exact (Worker.serves_congr same).trans (quiet old found)

theorem Honest.keeps (h : ∀ w, stored = some w → Honest log w) (keeps : Keeps stored stored') :
    ∀ w, stored' = some w → Honest log w := by
  intro y hy
  obtain ⟨old, found, precedes, same, observed⟩ := keeps y hy
  have honest := h old found
  refine ⟨observed ▸ Int.le_trans honest.observed precedes.le, fun serves => ?_⟩
  obtain ⟨v, last, born, seen, before⟩ := honest.served (Worker.serves_congr same ▸ serves)
  exact ⟨v, last, born, observed.trans seen, before.trans precedes⟩

theorem Relies.keeps {stage : AttemptState} (h : Relies k stored log stage)
    (keeps : Keeps stored stored') : Relies k stored' log stage := by
  cases h with
  | outset => exact .outset
  | ended => exact .ended
  | before leads quiets met quiet =>
    exact .before leads quiets (met.keeps keeps) fun known => keeps.quiet (quiet known)
  | calling fits =>
    refine .calling fun creates => ?_
    obtain ⟨met, owed, quiet⟩ := fits creates
    exact ⟨met.keeps keeps, owed, keeps.quiet quiet⟩
  | answered only called fits =>
    refine .answered only called fun creates ok => ?_
    obtain ⟨last, met⟩ := fits creates ok
    exact ⟨last, met.keeps keeps⟩

theorem keeps_modify {t : Tracker Worker} {old : Worker} (found : t.get? k = some old)
    (hk : old.key = k) {f : Worker → Worker}
    (record : (f old).status.lastOperation = old.status.lastOperation)
    (observed : (f old).status.observedGeneration = old.status.observedGeneration) :
    Keeps (t.get? k) ((t.modify k f).2.get? k) := by
  intro y left
  obtain ⟨precedes, operation, generation⟩ := Tracker.precedes_modify found hk left
  exact ⟨old, found, precedes, operation.trans record, generation.trans observed⟩

theorem keeps_delete {t : Tracker Worker} {old : Worker} (found : t.get? k = some old)
    (hk : old.key = k) (now : Timestamp) : Keeps (t.get? k) ((t.delete now k).2.get? k) := by
  intro y left
  obtain ⟨precedes, status⟩ := Tracker.precedes_delete found hk left
  exact ⟨old, found, precedes, by rw [status], by rw [status]⟩

end

/-! ### Steps of an attempt -/

/-- Whether a write is a record of operations. -/
def Write.records : Write → Bool
  | .operationStatus _ _ => true
  | _ => false

/-- Only a record changes the record. -/
theorem Write.record_change {x : Write} (other : x.records = false) (w : Worker) :
    (x.change w).status.lastOperation = w.status.lastOperation ∧
      (x.change w).status.observedGeneration = w.status.observedGeneration := by
  cases x with
  | operationStatus k s => cases other
  | addFinalizer =>
    simp only [change]
    split <;> exact ⟨rfl, rfl⟩
  | _ => exact ⟨rfl, rfl⟩

section

variable {k : Key} {a a' : Api} {log : List Note}

/-- What a write leaves. -/
theorem left_write (keyed : a.workers.Keyed) {x : Write} (hx : x.key = k) {y : Worker}
    (left : (a.write x).2.workers.get? k = some y) :
    ∃ old, a.workers.get? k = some old ∧ Precedes old y ∧
      y.status.lastOperation = (x.change old).status.lastOperation ∧
      y.status.observedGeneration = (x.change old).status.observedGeneration := by
  rw [Api.workers_write, hx] at left
  obtain ⟨old, found⟩ := Tracker.found_of_modify left
  exact ⟨old, found, Tracker.precedes_modify found (keyed k old found) left⟩

theorem keeps_write (keyed : a.workers.Keyed) {x : Write} (hx : x.key = k)
    (other : x.records = false) : Keeps (a.workers.get? k) ((a.write x).2.workers.get? k) := by
  intro y left
  obtain ⟨old, found, precedes, operation, generation⟩ := left_write keyed hx left
  obtain ⟨record, observed⟩ := Write.record_change other old
  exact ⟨old, found, precedes, operation.trans record, generation.trans observed⟩

theorem left_record (keyed : a.workers.Keyed) {s : OperationStatus} {y : Worker}
    (left : (a.write (.operationStatus k s)).2.workers.get? k = some y) :
    ∃ old, a.workers.get? k = some old ∧ Precedes old y ∧
      y.serves = s.operation.serves ∧
      y.status.observedGeneration = s.observedGeneration.getD old.status.observedGeneration := by
  obtain ⟨old, found, precedes, operation, observed⟩ := left_write keyed rfl left
  refine ⟨old, found, precedes, ?_, observed⟩
  rw [Worker.serves, operation]
  rfl

/-- A record that does not serve and tells of no generation is honest. -/
theorem Honest.record (h : ∀ w, a.workers.get? k = some w → Honest log w)
    (keyed : a.workers.Keyed) {s : OperationStatus} (serves : s.operation.serves = false)
    (unseen : s.observedGeneration = none) :
    ∀ w, (a.write (.operationStatus k s)).2.workers.get? k = some w → Honest log w := by
  intro y left
  obtain ⟨old, found, precedes, same, observed⟩ := left_record keyed left
  rw [unseen, Option.getD_none] at observed
  refine ⟨observed ▸ Int.le_trans (h old found).observed precedes.le, fun yes => ?_⟩
  rw [same, serves] at yes
  cases yes

theorem Met.write {u : Worker} (h : Met (a.workers.get? k) log u) (keyed : a.workers.Keyed)
    {x : Write} (hx : x.key = k) : Met ((a.write x).2.workers.get? k) log u := by
  refine ⟨h.born, fun y left => ?_⟩
  obtain ⟨old, found, precedes, -⟩ := left_write keyed hx left
  exact (h.precedes old found).trans precedes

/-- What a write makes sure of. -/
theorem quiet_write (keyed : a.workers.Keyed) {x : Write} (hx : x.key = k) {known : Bool}
    (quiet : known = true → ∀ w, a.workers.get? k = some w → w.serves = false)
    (sure : x.quiets known = true) :
    ∀ w, (a.write x).2.workers.get? k = some w → w.serves = false := by
  cases x with
  | operationStatus k' s =>
    obtain rfl : k' = k := hx
    intro y left
    obtain ⟨-, -, -, same, -⟩ := left_record keyed left
    exact same.trans ((Bool.not_eq_true' _).mp sure)
  | _ => exact (keeps_write keyed hx rfl).quiet (quiet sure)

theorem lastServed_replied (c : Command) (r : Reply) (log : List Note) :
    lastServed (.replied c r :: log) = lastServed log ∨
      Idle.creates c.call = true ∧ (∃ data, r = .ok data) ∧
        lastServed (.replied c r :: log) = some c.worker := by
  cases r with
  | ok data =>
    by_cases creates : Idle.creates c.call = true
    · exact .inr ⟨creates, ⟨data, rfl⟩, if_pos creates⟩
    · exact .inl (if_neg creates)
  | error e => exact .inl rfl

namespace Relies

variable {stage : AttemptState} {stage' : Option AttemptState} {notes : List Note}

/-- What is stored stays honest. -/
theorem honest_moves (h : Relies k (a.workers.get? k) log stage) (keyed : a.workers.Keyed)
    (honest : ∀ w, a.workers.get? k = some w → Honest log w)
    (own : ∀ x next, stage = .going (.write x next) → x.key = k)
    (hm : stage.Moves k a stage' a' notes) :
    ∀ w, a'.workers.get? k = some w → Honest (notes ++ log) w := by
  cases hm with
  | @write x next =>
    have key := own x next rfl
    cases h with
    | before leads =>
      cases leads.1 with
      | consume => exact Honest.keeps honest (keeps_write keyed key rfl)
      | hold => exact Honest.keeps honest (keeps_write keyed key rfl)
      | announce _ processing unseen =>
        refine Honest.record honest keyed ?_ unseen
        rw [LastOperation.serves, LastOperation.succeeded, processing]
        rfl
    | answered only called fits =>
      cases only.1 with
      | release => exact Honest.keeps honest (keeps_write keyed key rfl)
      | @record s there kind state seen =>
        obtain rfl := key
        have serves := LastOperation.serves_congr kind state
        rcases Provision.outcome_cases _ _ there with ⟨creates, ok, told⟩ | ⟨untold, quiet⟩
        · obtain ⟨last, met⟩ := fits creates ok
          intro y left
          obtain ⟨old, found, precedes, -, observed⟩ := left_record keyed left
          have before := (met.precedes old found).trans precedes
          rw [seen, told, Option.getD_some] at observed
          exact ⟨observed ▸ before.le, fun _ => ⟨_, last, met.born, observed, before⟩⟩
        · exact Honest.record honest keyed (serves.trans quiet) (seen.trans untold)
  | @reply c next r =>
    intro w found
    cases h with
    | calling fits =>
    refine ⟨(honest w found).observed, fun serves => ?_⟩
    rcases lastServed_replied c r log with same | ⟨creates, -, -⟩
    · obtain ⟨v, last, rest⟩ := (honest w found).served serves
      exact ⟨v, same.trans last, rest⟩
    · obtain ⟨-, -, quiet⟩ := fits creates
      cases serves.symm.trans (quiet w found)
  | _ => exact fun w found => ⟨(honest w found).observed, (honest w found).served⟩

/-- A call for machines is for the worker that is stored, which does not serve. -/
theorem call {p : Option Worker} {c : Command} {known : Bool} (met : Met p log c.worker)
    (quiets : Idle.creates c.call = true → known = true)
    (quiet : known = true → ∀ w, p = some w → w.serves = false) :
    Relies k p (.called c :: log) (.calling c (Provision.conclude c)) := by
  refine .calling fun creates => ⟨⟨met.born, met.precedes⟩, ?_, quiet (quiets creates)⟩
  rw [owes, creates, decide_eq_true (show Concerns c log from met.born)]
  rfl

/-- An attempt that has looked its worker up. -/
theorem attend {w : Worker} (key : w.key = k) (born : birth log ≤ w.metadata.resourceVersion) :
    Relies k (some w) log (.going (Provision.attend k w)) := by
  have quiets : (Provision.attend k w).Quiets k (!w.serves) :=
    Provision.quiets_attend key fun quiet => by rw [quiet]; rfl
  refine .before (Provision.leads_attend key) quiets ⟨born, ?_⟩ ?_
  · rintro y ⟨⟩
    exact .refl w
  · rintro known y ⟨⟩
    exact (Bool.not_eq_true' _).mp known

/-- **A step of an attempt keeps what it relies on.** -/
theorem moves (h : Relies k (a.workers.get? k) log stage) (keyed : a.workers.Keyed)
    (dated : ∀ w, a.workers.get? k = some w → birth log ≤ w.metadata.resourceVersion)
    (own : ∀ x next, stage = .going (.write x next) → x.key = k)
    (hm : stage.Moves k a stage' a' notes) {next : AttemptState} (left : stage' = some next) :
    Relies k (a'.workers.get? k) (notes ++ log) next := by
  cases hm with
  | finish | cut => cases left
  | look =>
    cases left
    cases h with
    | outset =>
      show Relies k _ _ (.going (Provision.seen k (a.workers.get? k)))
      cases found : a.workers.get? k with
      | none => exact .ended
      | some w => exact attend (keyed k w found) (dated w found)
    | before leads quiets met quiet =>
      refine .before (leads _) (quiets a.caches) met fun known w found => ?_
      have seen : a.caches.workers.get? k = some w := found
      rw [seen, Option.any_some, Bool.or_eq_true, Bool.not_eq_true'] at known
      exact known.elim (quiet · w found) id
    | answered only called fits => exact .answered (only _) (called _) fits
  | clock now =>
    cases left
    cases h with
    | before leads quiets met quiet => exact .before (leads now) (quiets now) met quiet
    | answered only called fits => exact .answered (only now) (called now) fits
  | @write x rest =>
    cases left
    have key := own x rest rfl
    cases h with
    | before leads quiets met quiet =>
      cases found : a.workers.get? k with
      | none =>
        have failed := Api.write_of_missing (w := x) (key ▸ found)
        rw [failed]
        exact .before (leads.2 _) (quiets.2 _) met quiet
      | some old =>
        obtain ⟨ok, -, -⟩ :=
          Api.outcome_write (w := x) (key ▸ found) ((keyed k old found).trans key.symm)
        rw [ok]
        exact .before (leads.2 _) quiets.1 (met.write keyed key) (quiet_write keyed key quiet)
    | answered only called fits =>
      refine .answered (only.2 _) (called _) fun creates ok => ?_
      obtain ⟨last, met⟩ := fits creates ok
      exact ⟨last, met.write keyed key⟩
  | @lose x rest reason =>
    cases left
    cases h with
    | before leads quiets met quiet =>
      exact .before (leads.2 _) (quiets.2 _) ⟨met.born, met.precedes⟩ quiet
    | answered only called fits =>
      refine .answered (only.2 _) (called _) fun creates ok => ?_
      obtain ⟨last, met⟩ := fits creates ok
      exact ⟨last, met.born, met.precedes⟩
  | call =>
    cases left
    cases h with
    | before leads quiets met quiet =>
      obtain ⟨rfl, -, rfl⟩ := leads
      exact call met quiets quiet
    | answered _ called => exact called.elim
  | reply r =>
    cases left
    cases h with
    | calling fits =>
    refine .answered (Provision.only_conclude _ r) (Provision.callsAtMost_conclude _ r) ?_
    rintro creates ⟨data, rfl⟩
    obtain ⟨met, -, -⟩ := fits creates
    exact ⟨if_pos creates, met.born, met.precedes⟩

end Relies

end

/-! ### Sites -/

namespace Site

variable {k : Key} {s s' : Site}

/-- What can happen next if a new worker has an empty status, and is not put in the place of one
that an attempt has looked at and not called the actuator for. -/
def Serves (s s' : Site) : Prop :=
  Step KeepsStatus s s' ∧ ∀ w, s'.log = .created w :: s.log →
    w.status = default ∧ ∀ p, s.attempts w.key = some (.going p) → p = Provision.plan w.key

theorem reaches_of_serves (run : Relation.ReflTransGen Serves opened s) :
    Reaches KeepsFinalizer opened s :=
  run.lift id fun _ _ h => h.1.mono fun _ _ keeps => keeps.1.1

/-- While machines may exist the worker is there. -/
theorem found_of_owes (reached : Reaches KeepsFinalizer opened s)
    (owed : owes (s.history k) = true) : ∃ w, s.api.workers.get? k = some w := by
  obtain ⟨a, -, kept⟩ :=
    view_of_reaches id (WorkerView.kept_opened 0) (fun _ _ inv hs => inv.step hs) reached
  obtain ⟨w, found, -⟩ := kept.holds owed
  exact ⟨w, found⟩

/-- The worker under `k` is honest, and the attempt on it can rely on what it knows. -/
structure Observes (k : Key) (s : Site) : Prop where
  stored : ∀ w, s.api.workers.get? k = some w → Honest (s.history k) w
  attempt : ∀ stage, s.attempts k = some stage →
    Relies k (s.api.workers.get? k) (s.history k) stage

theorem observes_opened (k : Key) : opened.Observes k :=
  ⟨fun _ found => (by cases found), fun _ under => (by cases under)⟩

theorem Observes.keeps (h : s.Observes k)
    (keeps : Keeps (s.api.workers.get? k) (s'.api.workers.get? k))
    (attempt : s'.attempts k = s.attempts k) (log : s'.history k = s.history k) :
    s'.Observes k := by
  refine ⟨?_, fun stage under => ?_⟩
  · rw [log]
    exact Honest.keeps h.stored keeps
  · rw [log]
    exact (h.attempt stage (attempt ▸ under)).keeps keeps

/-- A worker is created when nobody counts on the one before. -/
theorem Observes.created (h : s.Observes k) (reached : Reaches KeepsFinalizer opened s)
    {w : Worker} (free : s.api.workers.get? k = none) (stored : s'.api.workers.get? k = some w)
    (attempt : s'.attempts k = s.attempts k) (new : w.status = default)
    (first : w.metadata.generation = 1)
    (waits : ∀ p, s.attempts k = some (.going p) → p = Provision.plan k) : s'.Observes k := by
  refine ⟨fun y found => ?_, fun stage under => ?_⟩
  · obtain rfl := Option.some.inj (stored.symm.trans found)
    exact .created new first
  · rw [attempt] at under
    cases stage with
    | going p =>
      rw [waits p under]
      exact .outset
    | calling c next =>
      cases h.attempt _ under with
      | calling fits =>
        refine .calling fun creates => ?_
        obtain ⟨-, owed, -⟩ := fits creates
        obtain ⟨y, found⟩ := found_of_owes reached owed
        cases free.symm.trans found

/-- **Every step keeps what is observed true.** -/
theorem Observes.step (h : s.Observes k) (reached : Reaches KeepsFinalizer opened s)
    (hs : Serves s s') : s'.Observes k := by
  have sound := sound_of_reaches reached
  have same : Keeps (s.api.workers.get? k) (s.api.workers.get? k) :=
    fun y found => ⟨y, found, .refl y, rfl, rfl⟩
  obtain ⟨step, creation⟩ := hs
  cases turn sound step k with
  | idle stored attempt log => exact h.keeps (stored ▸ same) attempt log
  | @created w key free stored attempt log first =>
    obtain ⟨new, waits⟩ := creation w log
    exact h.created reached free stored attempt new first (key ▸ waits)
  | changed found allowed workers attempt log =>
    refine h.keeps ?_ attempt log
    rw [workers]
    exact keeps_modify found (sound.keyed k _ found) allowed.1.2 allowed.2
  | deleted found workers attempt log =>
    refine h.keeps ?_ attempt log
    rw [workers]
    exact keeps_delete found (sound.keyed k _ found) _
  | begun free under stored log =>
    refine ⟨?_, fun stage at_ => ?_⟩
    · rw [stored, log]
      exact h.stored
    · obtain rfl := Option.some.inj (under.symm.trans at_)
      exact .outset
  | @moved stage _ _ _ under moves api attempt log =>
    have own : ∀ x next, stage = .going (.write x next) → x.key = k := by
      rintro x next rfl
      exact sound.write_key under
    subst api
    refine ⟨?_, fun next at_ => ?_⟩
    · rw [log]
      exact (h.attempt stage under).honest_moves sound.keyed h.stored own moves
    · rw [log]
      exact (h.attempt stage under).moves sound.keyed (fun w found => birth_le reached found) own
        moves (attempt.symm.trans at_)

theorem observes_of_reaches (run : Relation.ReflTransGen Serves opened s) (k : Key) :
    s.Observes k := by
  induction run with
  | refl => exact observes_opened k
  | tail before hs ih => exact ih.step (reaches_of_serves before) hs

/-- **The observed generation never claims a spec that the actuator has not seen.** It is not above
the generation, and as long as a creation, a reconciliation or a restoration is on record as
succeeded it is the generation of the worker that the actuator was last called with successfully
to bring its machines in line, which is the same incarnation. If it is the present generation,
then that worker had the present spec. -/
theorem observed_generation (run : Relation.ReflTransGen Serves opened s) {w : Worker}
    (found : s.api.workers.get? k = some w) :
    w.status.observedGeneration ≤ w.metadata.generation ∧
      ∀ o, w.status.lastOperation = some o → o.state = .succeeded →
        (o.kind = .create ∨ o.kind = .reconcile ∨ o.kind = .restore) →
        ∃ v, lastServed (s.history k) = some v ∧
          birth (s.history k) ≤ v.metadata.resourceVersion ∧
          w.status.observedGeneration = v.metadata.generation ∧
          (w.status.observedGeneration = w.metadata.generation →
            Resource.sameSpec v w = true) := by
  have honest := (observes_of_reaches run k).stored w found
  refine ⟨honest.observed, fun o recorded state kind => ?_⟩
  have serves : w.serves = true := by
    rw [Worker.serves, recorded, Option.any_some, LastOperation.serves, LastOperation.succeeded]
    simpa [state, or_assoc] using kind
  obtain ⟨v, last, born, seen, precedes⟩ := honest.served serves
  exact ⟨v, last, born, seen, fun present => precedes.same (seen.symm.trans present)⟩

/-- Whether an entry tells of a new worker. -/
def isCreation : Note → Bool
  | .created _ => true
  | _ => false

/-- Nothing is asked of a run that creates no worker. -/
theorem serves_of_reaches (run : Reaches KeepsStatus s s')
    (old : s'.log.countP isCreation ≤ s.log.countP isCreation) :
    Relation.ReflTransGen Serves s s' := by
  induction run with
  | refl => exact .refl
  | @tail s₁ s₂ before hs ih =>
    have first := (log_suffix before).sublist.countP_le (p := isCreation)
    have last := hs.log_suffix.sublist.countP_le (p := isCreation)
    refine (ih (by omega)).tail ⟨hs, fun w log => ?_⟩
    rw [log, List.countP_cons_of_pos rfl] at old
    omega

theorem serves_founded {w : Worker} (new : w.status = default) :
    Relation.ReflTransGen Serves opened (founded w) := by
  let c := Trial.Fixture.cluster w.metadata.ns default .healthy
  have cluster : Serves opened
      ⟨{ Api.empty with clusters := ((∅ : Tracker Cluster).create default c).2 }, fun _ => none,
        []⟩ :=
    ⟨.elsewhere _ _ rfl rfl, fun _ log => by cases log⟩
  refine .tail (.single cluster) ⟨.create _ default w, fun w' log => ?_⟩
  obtain rfl := Note.created.inj (List.cons.inj log).1
  exact ⟨new, fun _ under => by cases under⟩

/-- A worker whose spec is changed while the actuator creates its machines: what is recorded is the
generation that the actuator saw. -/
theorem observed_generation_respecified :
    ∃ (s : Site) (w v : Worker) (o : LastOperation), Relation.ReflTransGen Serves opened s ∧
      s.api.workers.get? ⟨"tenant", "pool"⟩ = some w ∧ w.status.lastOperation = some o ∧
      o.kind = .create ∧ o.state = .succeeded ∧
      w.status.observedGeneration ≤ w.metadata.generation ∧ w.metadata.generation = 2 ∧
      lastServed (s.history ⟨"tenant", "pool"⟩) = some v ∧
      w.status.observedGeneration = v.metadata.generation ∧ v.metadata.generation = 1 ∧
      v.spec.region = "" ∧ w.spec.region = "elsewhere" := by
  have here {s : Site} (_ : Relation.ReflTransGen Serves opened s) :
      Reaches KeepsStatus s s := .refl
  have start := serves_founded (w := Trial.Fixture.worker "tenant" "pool" default) rfl
  obtain ⟨before, call⟩ : Reaches KeepsStatus _ _ ∧ Step KeepsStatus _ _ :=
    calls_of_advance (k := ⟨"tenant", "pool"⟩) (here start) rfl rfl
  have changed : Reaches KeepsStatus _ (Site.staged _ _ _ _ _) :=
    (before.tail call).tail (.change _ ⟨"tenant", "pool"⟩
      (fun w => { w with spec := { w.spec with region := "elsewhere" } })
      fun _ _ => ⟨⟨rfl, rfl⟩, rfl⟩)
  have rest := rests_of_advance changed (.ok none) rfl
  have run := start.trans (serves_of_reaches rest (by decide))
  obtain ⟨le, served⟩ := observed_generation (k := ⟨"tenant", "pool"⟩) run rfl
  obtain ⟨v, last, -, seen, -⟩ := served _ rfl rfl (.inl rfl)
  obtain rfl : _ = v := Option.some.inj last
  exact ⟨_, _, _, _, run, rfl, rfl, rfl, rfl, le, rfl, last, seen, rfl, rfl, rfl⟩

/-- A worker whose spec was changed is deleted and created again after an attempt has looked at it,
and before the actuator is called. The generation of the old one goes on record for the new one:
it is above the generation that this has, and the actuator was called with the old one only. -/
theorem observed_generation_recreated :
    ∃ (s : Site) (w v : Worker) (o : LastOperation), Reaches KeepsStatus opened s ∧
      (∀ y, .created y ∈ s.log → y.status = default) ∧
      s.api.workers.get? ⟨"tenant", "pool"⟩ = some w ∧ w.status.lastOperation = some o ∧
      o.kind = .create ∧ o.state = .succeeded ∧
      w.status.observedGeneration = 2 ∧ w.metadata.generation = 1 ∧
      lastServed (s.history ⟨"tenant", "pool"⟩) = some v ∧
      v.metadata.uid ≠ w.metadata.uid := by
  have changed : Reaches KeepsStatus opened _ :=
    (reaches_founded (Trial.Fixture.worker "tenant" "pool" default)).tail
      (.change _ ⟨"tenant", "pool"⟩
        (fun w => { w with spec := { w.spec with region := "elsewhere" } })
        fun _ _ => ⟨⟨rfl, rfl⟩, rfl⟩)
  have looked := changed.trans (reaches_looked (k := ⟨"tenant", "pool"⟩) rfl)
  have replaced : Reaches KeepsStatus opened
      (staged _ ⟨"tenant", "pool"⟩ (some (.going _)) _ _) :=
    (looked.tail (.delete _ default ⟨"tenant", "pool"⟩)).tail
      (.create _ default (Trial.Fixture.worker "tenant" "pool" ⟨1⟩))
  have called := calls_of_staged replaced rfl
  have rest := rests_of_advance called (.ok none) rfl
  refine ⟨_, _, _, _, rest, fun y mem => ?_, rfl, rfl, rfl, rfl, rfl, rfl, rfl, by decide⟩
  have logged : Note.created y ∈
      [.replied _ _, .called _, .created _, .created _] := mem
  simp only [List.mem_cons, List.not_mem_nil, or_false, reduceCtorEq, false_or,
    Note.created.injEq] at logged
  rcases logged with rfl | rfl <;> rfl

end Site

end PoolControl
