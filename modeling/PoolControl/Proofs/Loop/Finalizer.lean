import PoolControl.Loop.Idle
import PoolControl.Proofs.Loop.Exclusive

/-! The finalizer stands for machines.

Machines may exist from the first call that creates them until a later call lets go of
them. `owes` reads that off the log. `Kept` is the invariant that carries the argument:
while machines may exist the stored worker has the finalizer, an attempt that counts on the
finalizer is right to, and an attempt that still speaks of an earlier worker of the key
owes nothing for the present one. `never_orphans` concludes that no worker goes while its
machines may exist, whatever fails and in whatever order things happen. -/
namespace PoolControl

open Provision (finalizer)

/-- Whether users leave the finalizer as it is. -/
def KeepsFinalizer (old new : Worker) : Prop :=
  new.metadata.hasFinalizer finalizer = old.metadata.hasFinalizer finalizer

/-- Whether machines may exist for the last worker created: of the calls made for it, one
that creates machines was not followed by one that let go of them. -/
def owes : List Note → Bool
  | [] => false
  | .created _ :: _ => false
  | .called c :: rest => (Idle.creates c.call && decide (Concerns c rest)) || owes rest
  | .replied c r :: rest => !(releases c r && decide (Concerns c rest)) && owes rest
  | _ :: rest => owes rest

/-! ### The finalizer along writes -/

/-- A worker that is asked to have a finalizer stays, and has it. -/
theorem Tracker.Outcome.has {old x : Worker} {v v' : Nat} {stored : Option Worker} {f : String}
    (h : Outcome old x v stored v') (hf : x.metadata.hasFinalizer f = true) :
    ∃ y, stored = some y ∧ y.metadata.hasFinalizer f = true := by
  cases h with
  | @kept y _ follows _ _ =>
    refine ⟨y, rfl, ?_⟩
    rw [follows.hasFinalizer]
    exact hf
  | gone bare _ _ =>
    rw [Metadata.hasFinalizer_of_bare bare] at hf
    cases hf

theorem Tracker.Removal.has {now : Timestamp} {old : Worker} {v v' : Nat} {stored : Option Worker}
    {f : String} (h : Removal now old v stored v') (hf : old.metadata.hasFinalizer f = true) :
    ∃ y, stored = some y ∧ y.metadata.hasFinalizer f = true := by
  cases h with
  | gone bare =>
    rw [Metadata.hasFinalizer_of_bare bare] at hf
    cases hf
  | kept => exact ⟨old, rfl, hf⟩
  | marked => exact ⟨_, rfl, hf⟩

/-- An attempt takes the finalizer off only when the machines were let go of. -/
theorem Standing.Writes.keeps {k : Key} {a : Standing} {w : Write} (h : a.Writes k w) {old : Worker}
    (hf : old.metadata.hasFinalizer finalizer = true) :
    (w.change old).metadata.hasFinalizer finalizer = true ∨
      ∃ c r recorded dropped, a = .answered c r recorded dropped ∧ releases c r = true := by
  cases w with
  | removeFinalizer k' f =>
    cases a with
    | answered c r recorded dropped => exact .inr ⟨c, r, recorded, dropped, rfl, h.2.2⟩
    | _ => exact h.elim
  | _ => exact .inl (Write.hasFinalizer_change (fun _ _ he => by cases he) hf)

/-! ### The invariant -/

namespace WorkerView

variable {k : Key} {s s' : WorkerView}

/-- The stored worker has the finalizer. -/
def Holds (s : WorkerView) : Prop :=
  ∃ w, s.stored = some w ∧ w.metadata.hasFinalizer finalizer = true

theorem Holds.has {w : Worker} (h : s.Holds) (found : s.stored = some w) :
    w.metadata.hasFinalizer finalizer = true := by
  obtain ⟨w', found', has⟩ := h
  obtain rfl := Option.some.inj (found.symm.trans found')
  exact has

/-- What an attempt counts on. -/
def Counts (s : WorkerView) : Standing → Prop
  | .about w held _ =>
    w.metadata.resourceVersion ≤ s.version ∧ (held = true → s.Holds) ∧
      (w.metadata.resourceVersion < birth s.log → owes s.log = false)
  | .calling c =>
    c.worker.metadata.resourceVersion ≤ s.version ∧
      (c.worker.metadata.resourceVersion < birth s.log → owes s.log = false)
  | .answered c r _ _ => releases c r = true → owes s.log = false
  | _ => True

structure Kept (s : WorkerView) : Prop where
  dated : s.Dated
  holds : owes s.log = true → s.Holds
  counts : ∀ a, s.standing = some a → s.Counts a

theorem kept_opened (v : Nat) : Kept ⟨none, v, none, []⟩ :=
  ⟨dated_opened v, fun owed => (by cases owed), fun _ ha => (by cases ha)⟩

theorem Kept.of_counts {a : Standing} (dated : s.Dated) (holds : owes s.log = true → s.Holds)
    (at_ : s.standing = some a) (counts : s.Counts a) : s.Kept := by
  refine ⟨dated, holds, fun b hb => ?_⟩
  obtain rfl := Option.some.inj (at_.symm.trans hb)
  exact counts

/-- What an attempt counts on is not taken from it while the finalizer stays. -/
theorem Counts.of_holds {a : Standing} (h : s.Counts a) (later : s.version ≤ s'.version)
    (log : s'.log = s.log) (holds : s.Holds → s'.Holds) : s'.Counts a := by
  cases a with
  | about w held touched =>
    obtain ⟨version, counted, stale⟩ := h
    rw [← log] at stale
    exact ⟨Nat.le_trans version later, fun hh => holds (counted hh), stale⟩
  | calling c =>
    obtain ⟨version, stale⟩ := h
    rw [← log] at stale
    exact ⟨Nat.le_trans version later, stale⟩
  | answered c r recorded dropped =>
    intro released
    rw [log]
    exact h released
  | _ => trivial

/-- A step that leaves attempts and log alone, and the finalizer on, keeps the invariant. -/
theorem Kept.of_holds (h : s.Kept) (dated : s'.Dated) (later : s.version ≤ s'.version)
    (log : s'.log = s.log) (standing : s'.standing = s.standing) (holds : s.Holds → s'.Holds) :
    s'.Kept := by
  refine ⟨dated, fun owed => ?_, fun a ha => ?_⟩
  · rw [log] at owed
    exact holds (h.holds owed)
  · rw [standing] at ha
    exact (h.counts a ha).of_holds later log holds

theorem Kept.look (h : s.Kept) {a : Standing} (at_ : s.standing = some a) :
    Kept { s with standing := some (a.saw s.stored) } := by
  refine .of_counts ⟨h.dated.born, h.dated.stored⟩ h.holds rfl ?_
  cases a with
  | outset =>
    cases stored : s.stored with
    | none => trivial
    | some w =>
      obtain ⟨born, version⟩ := h.dated.stored w stored
      exact ⟨version, fun held => ⟨w, rfl, held⟩,
        fun stale => absurd stale (Nat.not_lt_of_le born)⟩
  | _ => exact h.counts _ at_

/-- What an attempt writes before the call leaves it the finalizer that it counts on. -/
theorem Counts.write_about {w' : Worker} {held touched : Bool}
    (h : s.Counts (.about w' held touched)) {w : Write}
    (allowed : (Standing.about w' held touched).Writes k w) {old : Worker} {stored : Option Worker}
    {v : Nat} (found : s.stored = some old)
    (outcome : Tracker.Outcome old (w.change old) s.version stored v) (standing : Option Standing) :
    Counts ⟨stored, v, standing, s.log⟩ ((Standing.about w' held touched).wrote w) := by
  obtain ⟨version, counted, stale⟩ := h
  have later := Nat.le_trans version outcome.later
  have still (hh : held = true) :
      ∃ y, stored = some y ∧ y.metadata.hasFinalizer finalizer = true := by
    rcases allowed.keeps ((counted hh).has found) with kept | ⟨_, _, _, _, he, _⟩
    · exact outcome.has kept
    · cases he
  cases w with
  | addFinalizer k' f =>
    obtain ⟨_, rfl⟩ := allowed
    exact ⟨later, fun _ => outcome.has (Write.hasFinalizer_addFinalizer ..), stale⟩
  | clearRequest => exact ⟨later, still, stale⟩
  | operationStatus => exact ⟨later, still, stale⟩
  | _ => exact allowed.elim

theorem Kept.write (h : s.Kept) {a : Standing} {w : Write} {old : Worker} {stored : Option Worker}
    {v : Nat} (at_ : s.standing = some a) (allowed : a.Writes k w) (found : s.stored = some old)
    (outcome : Tracker.Outcome old (w.change old) s.version stored v)
    (dated : Dated { s with stored, version := v, standing := some (a.wrote w) }) :
    Kept { s with stored, version := v, standing := some (a.wrote w) } := by
  have counts := h.counts a at_
  refine .of_counts dated (fun owed => ?_) rfl ?_
  · rcases allowed.keeps ((h.holds owed).has found) with
      kept | ⟨c, r, recorded, dropped, rfl, released⟩
    · exact outcome.has kept
    · rw [counts released] at owed
      cases owed
  · cases a with
    | about w' held touched => exact counts.write_about allowed found outcome _
    | answered c r recorded dropped =>
      cases w with
      | operationStatus => exact counts
      | removeFinalizer => exact counts
      | _ => exact allowed.elim
    | _ => cases w <;> exact allowed.elim

/-- For a new worker nothing is owed, and attempts that began before speak of another. -/
theorem Kept.create (h : s.Kept) {w : Worker} {v : Nat} (free : s.stored = none)
    (dated : Dated { s with stored := some w, version := v, log := .created w :: s.log })
    (later : s.version ≤ v) :
    Kept { s with stored := some w, version := v, log := .created w :: s.log } := by
  refine ⟨dated, fun owed => (by cases owed), fun a ha => ?_⟩
  have counts := h.counts a ha
  cases a with
  | about w' held touched =>
    obtain ⟨version, counted, _⟩ := counts
    refine ⟨Nat.le_trans version later, fun hh => ?_, fun _ => rfl⟩
    obtain ⟨old, found, _⟩ := counted hh
    rw [free] at found
    cases found
  | calling c => exact ⟨Nat.le_trans counts.1 later, fun _ => rfl⟩
  | answered => exact fun _ => rfl
  | _ => trivial

theorem owes_called_of_stale {c : Command} {log : List Note} (h : ¬ Concerns c log) :
    owes (.called c :: log) = owes log := by
  rw [owes, decide_eq_false h, Bool.and_false, Bool.false_or]

theorem held_of_creates {w : Worker} {held touched : Bool} {c : Command}
    (allowed : (Standing.about w held touched).Calls k c) (creates : Idle.creates c.call = true) :
    held = true := by
  obtain ⟨_, _, permitted⟩ := allowed
  cases hc : c.call with
  | reconcile =>
    rw [hc] at permitted
    exact permitted.1
  | restore =>
    rw [hc] at permitted
    exact permitted
  | delete =>
    rw [hc] at creates
    cases creates
  | migrate =>
    rw [hc] at creates
    cases creates

theorem Kept.call (h : s.Kept) {a : Standing} {c : Command} (at_ : s.standing = some a)
    (allowed : a.Calls k c) :
    Kept { s with standing := some (.calling c), log := .called c :: s.log } := by
  cases a with
  | about w held touched =>
    obtain ⟨version, counted, stale⟩ := h.counts _ at_
    obtain rfl : c.worker = w := allowed.1
    refine .of_counts ⟨h.dated.born, h.dated.stored⟩ (fun owed => ?_) rfl ?_
    · simp only [owes, Bool.or_eq_true, Bool.and_eq_true] at owed
      rcases owed with ⟨creates, _⟩ | owed
      · exact counted (held_of_creates allowed creates)
      · exact h.holds owed
    · refine ⟨version, fun before => ?_⟩
      have before : ¬ Concerns c s.log := Nat.not_le_of_lt before
      exact (owes_called_of_stale before).trans (stale (Nat.lt_of_not_le before))
  | _ => exact allowed.elim

theorem Kept.reply (h : s.Kept) {c : Command} (at_ : s.standing = some (.calling c)) (r : Reply) :
    Kept
      { s with standing := some (.answered c r false false), log := .replied c r :: s.log } := by
  obtain ⟨_, stale⟩ := h.counts _ at_
  refine .of_counts ⟨h.dated.born, h.dated.stored⟩ (fun owed => ?_) rfl ?_
  · exact h.holds (Bool.and_eq_true_iff.mp owed).2
  · intro released
    show (!(releases c r && decide (Concerns c s.log)) && owes s.log) = false
    by_cases hc : Concerns c s.log
    · rw [released, decide_eq_true hc]
      rfl
    · rw [stale (Nat.lt_of_not_le hc), Bool.and_false]

/-- **Every step keeps the invariant.** -/
theorem Kept.step (h : s.Kept) (hs : Step KeepsFinalizer k s s') : s'.Kept := by
  have dated := h.dated.step hs
  cases hs with
  | pass later => exact h.of_holds dated later rfl rfl id
  | create key numbered free => exact h.create free dated (Nat.le_succ _)
  | change found allowed outcome =>
    refine h.of_holds dated outcome.later rfl rfl fun holds => ?_
    exact outcome.has (allowed.trans (holds.has found))
  | delete found outcome =>
    refine h.of_holds dated outcome.later rfl rfl fun holds => ?_
    exact outcome.has (holds.has found)
  | begin => exact .of_counts dated h.holds rfl trivial
  | look at_ => exact h.look at_
  | write at_ allowed found outcome => exact h.write at_ allowed found outcome dated
  | miss | lose => exact .of_counts dated h.holds rfl trivial
  | call at_ allowed => exact h.call at_ allowed
  | reply at_ r => exact h.reply at_ r
  | finish | cut => exact ⟨dated, h.holds, fun _ ha => (by cases ha)⟩

/-- Machines are created only under the finalizer. -/
theorem Kept.holds_of_called (h : s.Kept) (hs : Step KeepsFinalizer k s s') {c : Command}
    (called : s'.log = .called c :: s.log) (creates : Idle.creates c.call = true) : s.Holds := by
  obtain ⟨a, at_, allowed⟩ := hs.of_called called
  have counts := h.counts a at_
  cases a with
  | about w held touched => exact counts.2.1 (held_of_creates allowed creates)
  | _ => exact allowed.elim

/-- A worker that goes owes nothing. -/
theorem Kept.owes_of_gone (h : s.Kept) (hs : Step KeepsFinalizer k s s') {w : Worker}
    (found : s.stored = some w) (gone : s'.stored = none) : owes s.log = false := by
  have after := (h.step hs).holds
  cases hs with
  | change | delete | write =>
    refine eq_false_of_ne_true fun owed => ?_
    obtain ⟨w', found', _⟩ := after owed
    rw [gone] at found'
    cases found'
  | create => cases gone
  | _ =>
    have gone : s.stored = none := gone
    rw [found] at gone
    cases gone

end WorkerView

/-! ### Sites -/

namespace Site

/-- **The machines of a worker are never left behind**: a call that creates them is made
only when the stored worker has the finalizer, and a worker goes only when no call made for
it since has created any that were not deleted or migrated. -/
theorem never_orphans {s s' : Site} (h : Reaches KeepsFinalizer opened s)
    (hs : Step KeepsFinalizer s s') :
    (∀ c, s'.log = .called c :: s.log → Idle.creates c.call = true →
        ∃ w, s.api.workers.get? c.worker.key = some w ∧
          w.metadata.hasFinalizer finalizer = true) ∧
      ∀ k w, s.api.workers.get? k = some w → s'.api.workers.get? k = none →
        owes (s.history k) = false := by
  have kept (k : Key) : ∃ a, s.Stands k a ∧ (s.view k a).Kept :=
    view_of_reaches id (WorkerView.kept_opened 0) (fun _ _ inv hs => inv.step hs) h
  have sound := sound_of_reaches h
  refine ⟨fun c called creates => ?_, fun k w found gone => ?_⟩
  · obtain ⟨a, ha, inv⟩ := kept c.worker.key
    obtain ⟨a', _, step⟩ := simulate sound hs ha
    refine inv.holds_of_called step ?_ creates
    show s'.log.filter _ = _
    rw [called]
    exact List.filter_cons_of_pos (decide_eq_true rfl)
  · obtain ⟨a, ha, inv⟩ := kept k
    obtain ⟨a', _, step⟩ := simulate sound hs ha
    exact inv.owes_of_gone step found gone

/-- A worker that was reconciled once goes with the finalizer, after its deletion. -/
theorem never_orphans_deleted :
    ∃ (s s' : Site) (w w₀ : Worker) (c d : Command), Reaches KeepsFinalizer opened s ∧
      Step KeepsFinalizer s s' ∧
      s.log = [.replied d (.ok none), .called d, .replied c (.ok none), .called c, .created w₀] ∧
      c.call = .reconcile ∧ d.call = .delete ∧
      s.api.workers.get? ⟨"tenant", "pool"⟩ = some w ∧
      s'.api.workers.get? ⟨"tenant", "pool"⟩ = none ∧
      owes (s.history ⟨"tenant", "pool"⟩) = false := by
  have start : Reaches KeepsFinalizer opened _ :=
    reaches_founded (Trial.Fixture.worker "tenant" "pool" default)
  obtain ⟨before, call⟩ : Reaches KeepsFinalizer _ _ ∧ Step KeepsFinalizer _ _ :=
    calls_of_advance (k := ⟨"tenant", "pool"⟩) start rfl rfl
  have rest := rests_of_advance (before.tail call) (.ok none) rfl
  have deleted := rest.tail (.delete _ default ⟨"tenant", "pool"⟩)
  obtain ⟨before, call⟩ : Reaches KeepsFinalizer _ _ ∧ Step KeepsFinalizer _ _ :=
    calls_of_advance (k := ⟨"tenant", "pool"⟩) deleted rfl rfl
  have answered := (before.tail call).tail (staged_move (.reply (.ok none)))
  exact ⟨_, _, _, _, _, _, answered, staged_move .write, rfl, rfl, rfl, rfl, rfl,
    (never_orphans answered (staged_move .write)).2 _ _ rfl rfl⟩

end Site

end PoolControl
