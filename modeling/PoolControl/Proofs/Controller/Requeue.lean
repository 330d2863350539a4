import PoolControl.Proofs.Controller.KeyView
import PoolControl.Trial.Drill

/-! Failures and retries.

`KeyView.Kept` is what a view keeps to, with one case for each thing that a runner may be about with
a key. It ties the failures that the queue counts to those in the history of the key, from which
they differ while a runner has not told the queue yet, and says that a failure the queue was
told of is made good: the key is dirty, or waits for no longer than its backoff, or has been
waiting and is due. A runner that tells the queue of a delay that ends later than the clock can
show is lost, and its key with it; nothing else takes a runner out of its loop.

If nothing else wants the key, `KeyView.Backed` follows its retry to the moment: the key becomes
ready when its delay has passed and not before (`backed_run`). `pool_contract` puts this
together, for any number of runners and whatever their attempts come to. -/
namespace PoolControl

/-! ### Endings -/

/-- Whether an attempt that ends so is tried again: after a retryable error or a panic. -/
def Ending.isRetried : Ending → Bool
  | .result (.error (.retryable _)) => true
  | .result _ => false
  | .panicked => true

theorem Ending.closings_of_retried {e : Ending} (h : e.isRetried = true) :
    Result.closings e.settled = [.addRateLimited, .done] := by
  unfold isRetried at h
  split at h
  · rfl
  · cases h
  · rfl

/-- Any other attempt starts the count of failures over. -/
theorem Ending.closings_of_not_retried {e : Ending} (h : e.isRetried = false) :
    ∃ todo, Result.closings e.settled = .forget :: todo := by
  cases e with
  | panicked => cases h
  | result r =>
    rcases r with (_ | _) | (_ | _)
    · cases h
    · exact ⟨_, rfl⟩
    · exact ⟨_, rfl⟩
    · exact ⟨_, rfl⟩

/-- The delay that the queue is asked for after an attempt. -/
def Ending.delay? (p : Backoff.Policy) (v : Visit) : Ending → Option Duration
  | .result (.ok (.requeueAfter d)) => some d
  | e => if e.isRetried then some (p.delay v.requeues) else none

theorem Ending.delay?_of_retried (p : Backoff.Policy) (v : Visit) {e : Ending}
    (h : e.isRetried = true) : e.delay? p v = some (p.delay v.requeues) := by
  unfold delay?
  split
  · cases h
  · exact if_pos h

theorem Ending.delay?_of_told (p : Backoff.Policy) (v : Visit) {e : Ending} {d : Duration}
    (h : .addAfter d ∈ Result.closings e.settled) : e.delay? p v = some d := by
  rcases e with ((_ | _) | (_ | _)) | _ <;> simp [settled, Result.closings] at h
  rw [h]
  rfl

/-- Only a failure worth a retry is told to the queue as one. -/
theorem Ending.isRetried_of_told {e : Ending} (h : .addRateLimited ∈ Result.closings e.settled) :
    e.isRetried = true := by
  cases e with
  | panicked => rfl
  | result r =>
    rcases r with (_ | _) | (_ | _)
    · rfl
    all_goals simp [settled, Result.closings] at h

namespace Entry

/-- How many attempts in a row were to be tried again, up to the newest. -/
def streak : List Entry → Nat
  | [] => 0
  | .began _ :: rest => streak rest
  | .ended _ _ e :: rest => if e.isRetried then streak rest + 1 else 0

/-- Whether a number counts the attempts in a row that failed, as far as it can. -/
def Counts (n : UInt32) (history : List Entry) : Prop := n.toNat = min (streak history) 4294967295

variable {n : UInt32} {h : List Entry} {t : Instant} {v : Visit} {e : Ending}

theorem Counts.fail (count : Counts n h) (retried : e.isRetried = true) :
    Counts (if n = Backoff.limit then n else n + 1) (.ended t v e :: h) := by
  simp only [Counts, streak, retried, if_true] at count ⊢
  rw [Backoff.toNat_raised, count]
  omega

theorem counts_forgotten (settled : e.isRetried = false) : Counts 0 (.ended t v e :: h) := by
  simp only [Counts, streak, settled, Bool.false_eq_true, if_false]
  rfl

/-- Whether every attempt of a history was given the number of failures before it. -/
def Given (history : List Entry) : Prop :=
  ∀ v before, .began v :: before <:+ history → Counts v.requeues before

theorem Given.ends (given : Given h) (now : Instant) (v : Visit) (e : Option Ending) :
    Given (Entry.ends now v e ++ h) :=
  fun v' before past => given v' before (began_suffix_ends.mp past)

theorem Given.began (given : Given h) (count : Counts v.requeues h) : Given (.began v :: h) := by
  intro v' before past
  rcases List.suffix_cons_iff.mp past with new | past
  · cases new
    exact count
  · exact given v' before past

end Entry

open Entry (streak Counts Given)

namespace KeyView

/-! ### What a view keeps to -/

/-- Whether the key is wanted, or waits for a deadline no later than this, or is due. -/
def Pledged (x : KeyView) (due : Instant) : Prop :=
  x.slot.dirty = true ∨ (∃ t, x.slot.waiting = some t ∧ t ≤ due) ∨ 0 < x.slot.due

/-- What a view keeps to, depending on what its holder is about. -/
inductive Kept (p : Backoff.Policy) : KeyView → Prop
  | idle {x} (free : x.holder = none) (count : Counts x.slot.failures x.history) : Kept p x
  | attempting {x i v} (at_ : x.holder = some (i, .attempting v))
      (given : v.requeues = x.slot.failures) (count : Counts x.slot.failures x.history) : Kept p x
  /-- The attempt is not tried again. -/
  | settling {x i todo v e before} (at_ : x.holder = some (i, .closing todo))
      (ended : x.history = .ended x.now v e :: before) (settled : e.isRetried = false)
      (rest : todo <:+ Result.closings e.settled)
      (forgotten : .forget ∉ todo → x.slot.failures = 0) : Kept p x
  /-- The queue is not told of a failure yet. -/
  | failed {x i v e before} (at_ : x.holder = some (i, .closing [.addRateLimited, .done]))
      (ended : x.history = .ended x.now v e :: before) (retried : e.isRetried = true)
      (given : v.requeues = x.slot.failures) (count : Counts x.slot.failures before) : Kept p x
  | retrying {x i v e before} (at_ : x.holder = some (i, .closing [.done]))
      (ended : x.history = .ended x.now v e :: before) (retried : e.isRetried = true)
      (count : Counts x.slot.failures x.history)
      (pledged : x.Pledged (x.now + (p.delay v.requeues).toNanos)) : Kept p x
  /-- The runner died of a delay that the clock cannot show the end of. -/
  | lost {x i t v e before d} (at_ : x.holder = some (i, .crashed))
      (ended : x.history = .ended t v e :: before) (delay : e.delay? p v = some d)
      (beyond : WorkQueue.admits t d = false) : Kept p x

variable {p : Backoff.Policy} {k : Key} {x y : KeyView}

/-- An attempt goes on or ends. -/
theorem kept_of (now : Instant) (slot : Slot) (i : Nat) {v : Visit} {h : List Entry}
    (given : v.requeues = slot.failures) (count : Counts slot.failures h) (e : Option Ending) :
    Kept p ⟨now, slot, some (i, .of v e), Entry.ends now v e ++ h⟩ := by
  cases e with
  | none => exact .attempting rfl given count
  | some e =>
    cases retried : e.isRetried with
    | true =>
      refine .failed (i := i) ?_ rfl retried given count
      show some (i, Work.closing (Result.closings e.settled)) = _
      rw [Ending.closings_of_retried retried]
    | false =>
      refine .settling rfl rfl retried (List.suffix_refl _) fun unsaid => ?_
      obtain ⟨todo, told⟩ := Ending.closings_of_not_retried retried
      rw [told] at unsaid
      exact absurd (List.mem_cons_self ..) unsaid

theorem failures_addAfter (s : Slot) (now : Instant) (d : Duration) :
    (s.addAfter now d).failures = s.failures := by
  unfold Slot.addAfter
  split
  · rfl
  · cases now.after? d <;> rfl

/-- Of two deadlines the earlier one counts. -/
theorem pledged_addBy (s : Slot) (t : Instant) {now : Instant} {holder : Option (Nat × Work)}
    {history : List Entry} : Pledged ⟨now, s.addBy t, holder, history⟩ t := by
  refine .inr (.inl ⟨s.waiting.elim t (min t), rfl, ?_⟩)
  cases s.waiting with
  | none => exact Nat.le_refl t
  | some t' => exact Nat.min_le_left t t'

/-- A delayed add that returns is a pledge for its deadline. -/
theorem pledged_addAfter (s : Slot) {now : Instant} {d : Duration}
    (returns : WorkQueue.admits now d = true) {holder : Option (Nat × Work)}
    {history : List Entry} :
    Pledged ⟨now, s.addAfter now d, holder, history⟩ (now + d.toNanos) := by
  unfold Slot.addAfter
  split
  · exact .inl rfl
  · rename_i later
    obtain zero | shown := Bool.or_eq_true_iff.mp returns
    · exact absurd zero later
    · obtain ⟨t, ht⟩ := Option.isSome_iff_exists.mp shown
      rw [ht, ← (Instant.after?_eq_some.mp ht).1]
      exact pledged_addBy s t

theorem Pledged.addBy {due : Instant} (h : x.Pledged due) (t : Instant) :
    Pledged { x with slot := x.slot.addBy t } due := by
  rcases h with dirty | ⟨t', stands, early⟩ | off
  · exact .inl dirty
  · refine .inr (.inl ⟨min t t', ?_, Nat.le_trans (Nat.min_le_right t t') early⟩)
    show some (x.slot.waiting.elim t (min t)) = some (min t t')
    rw [stands]
    rfl
  · exact .inr (.inr off)

/-- A delayed add never puts off what was pledged. -/
theorem Pledged.addAfter {due : Instant} (h : x.Pledged due) (d : Duration) :
    Pledged { x with slot := x.slot.addAfter x.now d } due := by
  unfold Slot.addAfter
  split
  · exact .inl rfl
  · cases x.now.after? d with
    | none => exact h
    | some t => exact h.addBy t

/-- What leaves the holder, the history and the failures alone, and every pledge standing. -/
theorem Kept.of_same (h : x.Kept p) (holder : y.holder = x.holder)
    (history : y.history = x.history) (now : y.now = x.now)
    (failures : y.slot.failures = x.slot.failures)
    (pledged : ∀ due, x.Pledged due → y.Pledged due) : y.Kept p := by
  cases h with
  | idle free count =>
    rw [← failures, ← history] at count
    exact .idle (holder.trans free) count
  | attempting at_ given count =>
    rw [← failures] at given
    rw [← failures, ← history] at count
    exact .attempting (holder.trans at_) given count
  | settling at_ ended settled rest forgotten =>
    rw [← now, ← history] at ended
    exact .settling (holder.trans at_) ended settled rest fun unsaid =>
      failures.trans (forgotten unsaid)
  | failed at_ ended retried given count =>
    rw [← now, ← history] at ended
    rw [← failures] at given count
    exact .failed (holder.trans at_) ended retried given count
  | retrying at_ ended retried count promise =>
    rw [← now] at promise
    rw [← now, ← history] at ended
    rw [← failures, ← history] at count
    exact .retrying (holder.trans at_) ended retried count (pledged _ promise)
  | lost at_ ended delay beyond =>
    exact .lost (holder.trans at_) (history.trans ended) delay beyond

/-- An add from outside keeps a view as it should be. -/
theorem Kept.added (h : x.Kept p) (ha : Added x y) : y.Kept p := by
  cases ha with
  | add => exact h.of_same rfl rfl rfl rfl fun _ _ => .inl rfl
  | addAfter d => exact h.of_same rfl rfl rfl (failures_addAfter ..) fun _ h => h.addAfter d

/-- What a runner tells the queue keeps a view as it should be. -/
theorem Kept.tell (h : x.Kept p) {i : Nat} {c : Closing} {todo : List Closing}
    (at_ : x.holder = some (i, .closing (c :: todo))) (more : c ≠ .done)
    (returns : c.returns p x.now x.slot = true) :
    Kept p { x with slot := c.tell p x.now x.slot, holder := some (i, .closing todo) } := by
  cases h with
  | idle free => cases free.symm.trans at_
  | attempting under | lost under => cases under.symm.trans at_
  | settling under ended settled rest forgotten =>
    cases under.symm.trans at_
    -- Forgetting comes first, so what is told after it finds no failures.
    refine .settling rfl ended settled ((List.suffix_cons c todo).trans rest) fun unsaid => ?_
    cases c with
    | forget => rfl
    | addAfter d =>
      show (x.slot.addAfter x.now d).failures = 0
      rw [failures_addAfter]
      exact forgotten (by simp [unsaid])
    | addRateLimited =>
      have retried := Ending.isRetried_of_told (rest.subset (List.mem_cons_self ..))
      exact absurd (settled.symm.trans retried) Bool.false_ne_true
    | done => exact absurd rfl more
  | failed under ended retried given count =>
    cases under.symm.trans at_
    refine .retrying rfl ended retried ?_ ?_
    · show Counts (x.slot.fail.addAfter x.now _).failures x.history
      rw [failures_addAfter, ended]
      exact count.fail retried
    · show Pledged ⟨x.now, x.slot.fail.addAfter x.now (p.delay x.slot.failures), _, _⟩ _
      rw [given]
      exact pledged_addAfter _ returns
  | retrying under =>
    cases under.symm.trans at_
    exact absurd rfl more

/-- A runner dies of nothing but a delay that the clock cannot show the end of. -/
theorem Kept.crash (h : x.Kept p) {i : Nat} {c : Closing} {todo : List Closing}
    (at_ : x.holder = some (i, .closing (c :: todo))) (panics : c.returns p x.now x.slot = false) :
    Kept p { x with slot := c.tell p x.now x.slot, holder := some (i, .crashed) } := by
  cases h with
  | idle free => cases free.symm.trans at_
  | attempting under | lost under => cases under.symm.trans at_
  | @settling _ _ v _ _ under ended settled rest =>
    cases under.symm.trans at_
    cases c with
    | addAfter d =>
      have asked := Ending.delay?_of_told p v (rest.subset (List.mem_cons_self ..))
      exact .lost rfl ended asked panics
    | addRateLimited =>
      have retried := Ending.isRetried_of_told (rest.subset (List.mem_cons_self ..))
      exact absurd (settled.symm.trans retried) Bool.false_ne_true
    | forget | done => cases panics
  | failed under ended retried given =>
    cases under.symm.trans at_
    have beyond : WorkQueue.admits x.now (p.delay x.slot.failures) = false := panics
    rw [← given] at beyond
    exact .lost rfl ended (Ending.delay?_of_retried p _ retried) beyond
  | retrying under =>
    cases under.symm.trans at_
    cases panics

/-- **Every step keeps a view as it should be.** -/
theorem Kept.step (h : x.Kept p) (hs : Step p k x y) : y.Kept p := by
  cases hs with
  | rest => exact h
  | pass time free =>
    cases h with
    | idle free' count => exact .idle free' count
    | attempting at_ given count => exact .attempting at_ given count
    | settling at_ | failed at_ | retrying at_ => exact absurd at_ (free _ _)
    | lost at_ ended delay beyond => exact .lost at_ ended delay beyond
  | expire => exact h.of_same rfl rfl rfl rfl fun _ _ => .inr (.inr (Nat.succ_pos _))
  | deliver => exact h.of_same rfl rfl rfl rfl fun _ _ => .inl rfl
  | take i e ready free =>
    cases h with
    | idle _ count =>
      exact kept_of x.now x.slot.take i (v := ⟨k, x.slot.failures⟩)
        (h := .began ⟨k, x.slot.failures⟩ :: x.history) rfl count e
    | attempting at_ | settling at_ | failed at_ | retrying at_ | lost at_ =>
      cases free.symm.trans at_
  | @attempt i v e at_ =>
    cases h with
    | idle free => cases free.symm.trans at_
    | attempting under given count =>
      cases under.symm.trans at_
      exact kept_of x.now x.slot i given count e
    | settling under | failed under | retrying under | lost under => cases under.symm.trans at_
  | tell at_ more returns => exact h.tell at_ more returns
  | crash at_ panics => exact h.crash at_ panics
  | done at_ =>
    cases h with
    | idle free => cases free.symm.trans at_
    | attempting under | lost under => cases under.symm.trans at_
    | settling under ended settled _ forgotten =>
      cases under.symm.trans at_
      refine .idle rfl ?_
      show Counts x.slot.failures x.history
      rw [forgotten (by decide), ended]
      exact Entry.counts_forgotten settled
    | failed under => cases under.symm.trans at_
    | retrying _ _ _ count => exact .idle rfl count

/-- An attempt is given the failures before it. -/
theorem Kept.given (h : x.Kept p) (given : Given x.history) (hs : Step p k x y) :
    Given y.history := by
  cases hs with
  | take i e ready free =>
    cases h with
    | idle _ count => exact (given.began count).ends _ _ _
    | attempting at_ | settling at_ | failed at_ | retrying at_ | lost at_ =>
      cases free.symm.trans at_
  | attempt e at_ => exact given.ends _ _ _
  | _ => exact given

/-! ### A retry that nothing else wants -/

/-- How far the retry of a key is that is due then and wanted for nothing else. -/
inductive Retry (due now : Instant) (s : Slot) : Prop
  | ahead (clean : s.dirty = false) (stands : s.waiting = some due) (none_ : s.due = 0)
      (ahead : now ≤ due)
  /-- The timer went off, and the key is yet to be added. -/
  | off (clean : s.dirty = false) (gone : s.waiting = none) (once : s.due = 1) (here : now = due)
  | back (dirty : s.dirty = true) (gone : s.waiting = none) (none_ : s.due = 0) (here : now = due)

/-- A key that failed and is wanted again for nothing but its retry, which is due then. -/
inductive Backed (p : Backoff.Policy) (due : Instant) (x : KeyView) : Prop
  | failed (i : Nat) (at_ : x.holder = some (i, .closing [.addRateLimited, .done]))
      (clean : x.slot.dirty = false) (idle : x.slot.waiting = none) (none_ : x.slot.due = 0)
      (delay : x.now + (p.delay x.slot.failures).toNanos = due)
  | told (i : Nat) (at_ : x.holder = some (i, .closing [.done])) (retry : Retry due x.now x.slot)
  | free (free : x.holder = none) (clean : x.slot.dirty = false) (retry : Retry due x.now x.slot)
  | lost (i : Nat) (at_ : x.holder = some (i, .crashed)) (beyond : Instant.latest < due)

variable {due now : Instant} {s : Slot}

theorem Retry.le (h : Retry due now s) : now ≤ due := by
  cases h with
  | ahead _ _ _ ahead => exact ahead
  | off _ _ _ here | back _ _ _ here => exact Nat.le_of_eq here

/-- As far as the clock shows, a retry is not late. -/
theorem Backed.ahead (h : x.Backed p due) (within : due ≤ Instant.latest) : x.now ≤ due := by
  cases h with
  | failed i at_ clean idle none_ delay => exact Nat.le.intro delay
  | told i at_ retry => exact retry.le
  | free free clean retry => exact retry.le
  | lost i at_ beyond => exact absurd within (Nat.not_le.mpr beyond)

/-- Until its delay is over the key is not in line. -/
theorem Backed.not_ready (h : x.Backed p due) : ¬ (x.slot.dirty = true ∧ x.holder = none) := by
  rintro ⟨dirty, free⟩
  cases h with
  | failed i at_ | told i at_ | lost i at_ => cases free.symm.trans at_
  | free _ clean => exact Bool.false_ne_true (clean.symm.trans dirty)

/-- The queue is told of the failure: the delay begins, or is none. -/
theorem retry_addAfter {d : Duration} (returns : WorkQueue.admits now d = true)
    (clean : s.dirty = false) (idle : s.waiting = none) (none_ : s.due = 0) :
    Retry (now + d.toNanos) now (s.addAfter now d) := by
  unfold Slot.addAfter
  split
  · rename_i zero
    rw [Duration.toNanos_of_isZero zero]
    exact .back rfl idle none_ rfl
  · rename_i later
    obtain zero | shown := Bool.or_eq_true_iff.mp returns
    · exact absurd zero later
    · obtain ⟨t, ht⟩ := Option.isSome_iff_exists.mp shown
      rw [ht, ← (Instant.after?_eq_some.mp ht).1]
      refine .ahead clean ?_ none_ (Instant.le_of_after? ht)
      show some (s.waiting.elim t (min t)) = some t
      rw [idle]
      rfl

/-- When the deadline is reached, the timer goes off. -/
theorem Retry.expire (h : Retry due now s) {t : Instant} (stands : s.waiting = some t)
    (reached : t ≤ now) : Retry due now s.expire := by
  cases h with
  | ahead clean stands' none_ ahead =>
    cases stands'.symm.trans stands
    refine .off clean rfl ?_ (Nat.le_antisymm ahead reached)
    show s.due + 1 = 1
    rw [none_]
  | off _ gone | back _ gone => cases gone.symm.trans stands

/-- The key is added when its retry is due. -/
theorem Retry.deliver (h : Retry due now s) (owed : 0 < s.due) :
    now = due ∧ Retry due now s.deliver := by
  cases h with
  | ahead _ _ none_ | back _ _ none_ => exact absurd owed (Nat.not_lt.mpr (Nat.le_of_eq none_))
  | off clean gone once here =>
    refine ⟨here, .back rfl gone ?_ here⟩
    show s.due - 1 = 0
    rw [once]

/-- **A step brings the retry on, or the key is in line when its delay is over.** -/
theorem Backed.step (h : x.Backed p due) (hs : Step p k x y)
    (timely : ∀ t, x.slot.waiting = some t → x.now ≤ t → y.now ≤ t)
    (prompt : 0 < x.slot.due → y.now = x.now) :
    y.Backed p due ∨ x.now = due ∧ y.slot.dirty = true ∧ y.holder = none := by
  cases hs with
  | rest => exact .inl h
  | pass time free =>
    cases h with
    | failed i at_ | told i at_ => exact absurd at_ (free _ _)
    | free nobody clean retry =>
      cases retry with
      | ahead _ stands none_ ahead =>
        exact .inl (.free nobody clean (.ahead clean stands none_ (timely due stands ahead)))
      | off _ gone once here =>
        have still := prompt (Nat.lt_of_lt_of_eq Nat.zero_lt_one once.symm)
        exact .inl (.free nobody clean (.off clean gone once (still.trans here)))
      | back dirty => exact absurd (clean.symm.trans dirty) Bool.false_ne_true
    | lost i at_ beyond => exact .inl (.lost i at_ beyond)
  | expire stands reached =>
    cases h with
    | failed i at_ clean idle => cases idle.symm.trans stands
    | told i at_ retry => exact .inl (.told i at_ (retry.expire stands reached))
    | free free clean retry => exact .inl (.free free clean (retry.expire stands reached))
    | lost i at_ beyond => exact .inl (.lost i at_ beyond)
  | deliver owed =>
    cases h with
    | failed i at_ clean idle none_ => exact absurd owed (Nat.not_lt.mpr (Nat.le_of_eq none_))
    | told i at_ retry => exact .inl (.told i at_ (retry.deliver owed).2)
    | free free clean retry => exact .inr ⟨(retry.deliver owed).1, rfl, free⟩
    | lost i at_ beyond => exact .inl (.lost i at_ beyond)
  | take i e ready free => exact absurd ⟨ready, free⟩ h.not_ready
  | attempt e at_ =>
    cases h with
    | failed i under | told i under | lost i under => cases under.symm.trans at_
    | free free => cases free.symm.trans at_
  | tell at_ more returns =>
    cases h with
    | failed i under clean idle none_ delay =>
      cases under.symm.trans at_
      rw [← delay]
      exact .inl (.told _ rfl (retry_addAfter (s := x.slot.fail) returns clean idle none_))
    | told i under =>
      cases under.symm.trans at_
      exact absurd rfl more
    | free free => cases free.symm.trans at_
    | lost i under => cases under.symm.trans at_
  | crash at_ panics =>
    cases h with
    | failed i under clean idle none_ delay =>
      cases under.symm.trans at_
      rw [← delay]
      exact .inl (.lost _ rfl (WorkQueue.admits_eq_false.mp panics).2)
    | told i under =>
      cases under.symm.trans at_
      cases panics
    | free free => cases free.symm.trans at_
    | lost i under => cases under.symm.trans at_
  | done at_ =>
    cases h with
    | failed i under | lost i under => cases under.symm.trans at_
    | told i under retry =>
      cases retry with
      | ahead clean stands none_ ahead =>
        exact .inl (.free rfl clean (.ahead clean stands none_ ahead))
      | off clean gone once here => exact .inl (.free rfl clean (.off clean gone once here))
      | back dirty _ _ here => exact .inr ⟨here, dirty, rfl⟩
    | free free => cases free.symm.trans at_

end KeyView

/-! ### Shifts -/

namespace Shift

variable {σ ρ : Type} {p : Backoff.Policy} {x : Shift σ ρ} {k : Key} {view : KeyView}
  {due : Instant}

/-- Whether a key becomes ready in an act of a run at a given time. -/
def ReadyAt (x : Shift σ ρ) (k : Key) (t : Instant) (l : List Act) : Prop :=
  ∃ before a after, l = before ++ a :: after ∧ (x.run before).now = t ∧
    k ∉ (x.run before).controller.queue.ready ∧
    k ∈ ((x.run before).next a).controller.queue.ready

theorem ReadyAt.cons {t : Instant} {a : Act} {l : List Act} (h : (x.next a).ReadyAt k t l) :
    x.ReadyAt k t (a :: l) := by
  obtain ⟨before, b, after, split, here, out, in_⟩ := h
  exact ⟨a :: before, b, after, congrArg (a :: ·) split, here, out, in_⟩

/-- The key of a drill. -/
def drilledKey : Key := ⟨"tenant", "pool"⟩

/-- A script in which the next attempts on the key end so. -/
def script (endings : List Ending) : Trial.Drill :=
  { caches := default, streams := [], log := [],
    script := OrderedMap.insert ∅ drilledKey (endings.map (⟨none, false, ·⟩)) }

/-- A pool of one runner that follows such a script. -/
def drilled (endings : List Ending) : Shift Trial.Drill Trial.Drill.Outcome :=
  opened "pool" default [] Trial.Drill.reconciler (script endings)

/-- The runner of a drill takes some steps. -/
def steps (n : Nat) : List Act := List.replicate n (.task (.runner 0))

/-- The acts up to the end of a first attempt. -/
def firstAttempt : List Act := .add drilledKey :: steps 2

end Shift

end PoolControl
