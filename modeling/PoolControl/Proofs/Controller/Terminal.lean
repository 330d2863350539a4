import PoolControl.Proofs.Controller.Requeue
import PoolControl.Proofs.Queue.Wanted

/-! Attempts that end for good.

An attempt that ends with a terminal error is not to be made again until somebody asks for its key
anew. The runner tells the queue to forget the failures of the key, but forgetting takes no
delayed add back. One that was pending when the key was handed out, from a retry or a requeue
before, goes off while the attempt goes on or after it ended, and the key is handed out again.
So is a key whose timer had gone off by then and had yet to add it.

`KeyView.Since` follows a key from the moment it is handed out. `rests_iff` says of any run that a
key whose attempt ended for good stays away if no delayed add of it was pending then, in either
way, and else is wanted again. `retried_after_terminal` is a run of the latter kind. -/
namespace PoolControl

open Entry (ends)

namespace KeyView

variable {p : Backoff.Policy} {k : Key} {v : Visit} {before : List Entry} {out : Slot}
  {x y : KeyView}

/-- Whether a key that was handed out like this is wanted for nothing but the delayed add that was
pending then. -/
structure Calm (out s : Slot) : Prop where
  wanted : s.IsWanted ↔ out.IsPending
  stands : ∀ t, out.waiting = some t → s.dirty = true ∨ 0 < s.due ∨ s.waiting = some t

/-- Handing the key out leaves it wanted for nothing else. -/
theorem calm_take (s : Slot) : Calm s s.take :=
  ⟨or_iff_right Bool.false_ne_true, fun _ stands => .inr (.inr stands)⟩

theorem Calm.expire {s : Slot} (h : Calm out s) {t : Instant} (stands : s.waiting = some t) :
    Calm out s.expire :=
  ⟨(Slot.isWanted_expire stands).trans h.wanted, fun _ _ => .inr (.inl (Nat.succ_pos _))⟩

theorem Calm.deliver {s : Slot} (h : Calm out s) (due : 0 < s.due) : Calm out s.deliver :=
  ⟨(Slot.isWanted_deliver due).trans h.wanted, fun _ _ => .inl rfl⟩

/-- What became of a key since it was handed out for an attempt. -/
inductive Since (v : Visit) (before : List Entry) (out : Slot) (x : KeyView) : Prop
  | attempting (i : Nat) (at_ : x.holder = some (i, .attempting v))
      (now_ : x.history = .began v :: before) (calm : Calm out x.slot)
  /-- The attempt ended for good, and there was none since. -/
  | dropped (t : Instant) (m : String)
      (ended : x.history = .ended t v (.result (.error (.terminal m))) :: .began v :: before)
      (told : ∀ i w, x.holder = some (i, w) → ∃ todo, w = .closing todo ∧ todo <:+ [.forget, .done])
      (calm : Calm out x.slot)
  /-- The attempt ended otherwise, or was not the last. -/
  | past (later : List Entry) (t : Instant) (e : Ending)
      (ended : x.history = later ++ .ended t v e :: .began v :: before)
      (cause : (∀ m, e ≠ .result (.error (.terminal m))) ∨ later ≠ [] ∧ out.IsPending)

/-- An attempt goes on or ends. -/
theorem since_of (now : Instant) (slot : Slot) (i : Nat) (calm : Calm out slot)
    (e : Option Ending) :
    Since v before out ⟨now, slot, some (i, .of v e), ends now v e ++ .began v :: before⟩ := by
  cases e with
  | none => exact .attempting i rfl rfl calm
  | some e =>
    by_cases final : ∃ m, e = .result (.error (.terminal m))
    · obtain ⟨m, rfl⟩ := final
      refine .dropped now m rfl (fun j w at_ => ?_) calm
      cases at_
      exact ⟨_, rfl, List.suffix_refl _⟩
    · exact .past [] now e rfl (.inl fun m he => final ⟨m, he⟩)

/-- The history of a key only grows. -/
theorem Step.grows (hs : Step p k x y) : x.history <:+ y.history := by
  cases hs with
  | take i e => exact (List.suffix_cons ..).trans (List.suffix_append ..)
  | attempt e => exact List.suffix_append ..
  | _ => exact List.suffix_refl _

/-- **A step of a key that nobody adds** says what became of it since. -/
theorem Since.step (h : x.Since v before out) (hs : Step p k x y) :
    y.Since v before out := by
  cases h with
  | attempting i at_ now_ calm =>
    cases hs with
    | rest => exact .attempting i at_ now_ calm
    | pass => exact .attempting i at_ now_ calm
    | expire stands => exact .attempting i at_ now_ (calm.expire stands)
    | deliver due => exact .attempting i at_ now_ (calm.deliver due)
    | take _ _ _ free =>
      cases free.symm.trans at_
    | attempt e under =>
      cases under.symm.trans at_
      rw [now_]
      exact since_of x.now x.slot i calm e
    | tell under | crash under | done under => cases under.symm.trans at_
  | dropped t m ended told calm =>
    cases hs with
    | rest => exact .dropped t m ended told calm
    | pass => exact .dropped t m ended told calm
    | expire stands => exact .dropped t m ended told (calm.expire stands)
    | deliver due => exact .dropped t m ended told (calm.deliver due)
    | take i e dirty =>
      let given : Visit := ⟨k, x.slot.failures⟩
      refine .past (ends x.now given e ++ [.began given]) t (.result (.error (.terminal m))) ?_
        (.inr ⟨by simp, calm.wanted.mp (.inl dirty)⟩)
      rw [List.append_assoc, ← ended]
      rfl
    | attempt e under =>
      obtain ⟨todo, other, -⟩ := told _ _ under
      cases other
    | @tell i c todo under more =>
      obtain ⟨_, same, rest⟩ := told _ _ under
      cases same
      have forget : c = .forget := by
        have said := rest.subset (List.mem_cons_self ..)
        simp only [List.mem_cons, List.not_mem_nil, or_false, more] at said
        exact said
      subst forget
      refine .dropped t m ended (fun j w at_ => ?_) ⟨calm.wanted, calm.stands⟩
      cases at_
      exact ⟨todo, rfl, (List.suffix_cons ..).trans rest⟩
    | @crash i c todo under panics =>
      obtain ⟨_, same, rest⟩ := told _ _ under
      cases same
      have said := rest.subset (List.mem_cons_self ..)
      simp only [List.mem_cons, List.not_mem_nil, or_false] at said
      rcases said with rfl | rfl <;> cases panics
    | done =>
      exact .dropped t m ended (fun j w at_ => by cases at_) ⟨calm.wanted, calm.stands⟩
  | past later t e ended cause =>
    obtain ⟨more, grown⟩ := hs.grows
    refine .past (more ++ later) t e ?_ (cause.imp_right (.imp_left fun some_ => ?_))
    · rw [← grown, ended, List.append_assoc]
    · exact List.append_ne_nil_of_right_ne_nil _ some_

variable {t : Instant} {m : String}

/-- As long as the end of the attempt is the last entry, the key was not wanted for anything but
a delayed add that was pending before. -/
theorem Since.calm (h : x.Since v before out)
    (ended : x.history = .ended t v (.result (.error (.terminal m))) :: .began v :: before) :
    Calm out x.slot := by
  cases h with
  | attempting i at_ now_ => cases now_.symm.trans ended
  | dropped t' m' ended' told calm => exact calm
  | past later t' e ended' cause =>
    have same := ended'.symm.trans ended
    have none_ : later = [] := by
      have lengths := congrArg List.length same
      simp only [List.length_append, List.length_cons, Nat.add_eq_right] at lengths
      exact List.eq_nil_of_length_eq_zero lengths
    subst none_
    cases same
    rcases cause with other | ⟨some_, -⟩
    · exact absurd rfl (other m)
    · exact absurd rfl some_

/-- With no delayed add pending, the end of the attempt remains the last entry. -/
theorem Since.rests (h : x.Since v before out) (idle : ¬ out.IsPending)
    (past : .ended t v (.result (.error (.terminal m))) :: .began v :: before <:+ x.history) :
    x.history = .ended t v (.result (.error (.terminal m))) :: .began v :: before := by
  cases h with
  | attempting i at_ now_ =>
    rw [now_] at past
    exact absurd past.length_le (by simp)
  | dropped t' m' ended told calm =>
    rw [ended] at past ⊢
    exact (past.eq_of_length rfl).symm
  | past later t' e ended cause =>
    rcases cause with other | ⟨-, pending⟩
    · have tail : .ended t' v e :: .began v :: before <:+ x.history :=
        ended ▸ List.suffix_append later _
      have same := (List.suffix_of_suffix_length_le past tail (Nat.le_refl _)).eq_of_length rfl
      cases same
      exact absurd rfl (other m)
    · exact absurd pending idle

end KeyView

namespace Shift

variable {σ ρ : Type} {p : Backoff.Policy} {x : Shift σ ρ} {k : Key} {view : KeyView}

/-- The act in which a key is handed out. -/
theorem since_next (sound : x.Sound p) (h : x.Shows k view) {a : Act} (allowed : x.Allows a)
    (spares : ¬ x.Adds k a) {v : Visit}
    (began : .began v :: x.history k <:+ (x.next a).history k) :
    ∃ view', (x.next a).Shows k view' ∧ view'.Since v (x.history k) view.slot := by
  obtain ⟨view', shows_, step | ⟨adds, -⟩⟩ := simulate sound allowed h
  · refine ⟨view', shows_, ?_⟩
    rw [← shows_.history, ← h.history] at began
    rw [← h.history]
    have shorter : ¬ .began v :: view.history <:+ view.history := fun past =>
      absurd past.length_le (by simp)
    cases step with
    | take i e =>
      rcases List.suffix_cons_iff.mp (Entry.began_suffix_ends.mp began) with same | past
      · cases same
        exact KeyView.since_of view.now view.slot.take i (KeyView.calm_take view.slot) e
      · exact absurd past shorter
    | attempt e => exact absurd (Entry.began_suffix_ends.mp began) shorter
    | _ => exact absurd began shorter
  · exact absurd adds spares

theorem not_isPending_iff (q : WorkQueue Key) (k : Key) :
    ¬ (q.slot k).IsPending ↔ q.waiting.get? k = none ∧ k ∉ q.due := by
  rw [Slot.IsPending, not_or, Option.not_isSome_iff_eq_none]
  exact and_congr_right fun _ => not_congr List.count_pos_iff

/-- A key that nobody has is wanted for nothing at all, or in one of these ways. -/
theorem unwanted_iff (sound : x.Sound p) (h : x.Shows k view) (free : view.holder = none) :
    ¬ view.slot.IsWanted ↔
      k ∉ x.controller.queue.ready ∧ k ∉ x.controller.queue.dirty ∧
        x.controller.queue.waiting.get? k = none ∧ k ∉ x.controller.queue.due := by
  have ready : k ∈ x.controller.queue.ready ↔ view.slot.dirty = true :=
    (h.mem_ready_iff sound).trans (and_iff_left free)
  have dirty : k ∈ x.controller.queue.dirty ↔ view.slot.dirty = true := by
    rw [h.slot]
    exact Iff.rfl
  rw [Slot.IsWanted, not_or, ← not_isPending_iff, ← h.slot, ready, dirty]
  exact ⟨fun h => ⟨h.1, h⟩, fun h => h.2⟩

/-- **A key whose attempt ended for good stays away if and only if no delayed add of it was
pending when it was handed out**, neither waiting for its deadline nor due, as long as nobody adds
it during the attempt or after. -/
theorem rests_iff (name : String) (o : Controller.Options) (watches : List (Watch σ))
    (r : Reconciler σ ρ) (s : σ) (l : List Act) (a : Act) (l₁ l₂ : List Act) (k : Key) (v : Visit)
    (t : Instant) (m : String) :
    let x := (opened name o watches r s).run l
    let z := x.run (a :: l₁)
    let y := z.run l₂
    (opened name o watches r s).Lawful (l ++ (a :: l₁ ++ l₂)) → x.Spares k (a :: l₁ ++ l₂) →
    .began v :: x.history k <:+ (x.next a).history k →
    z.history k = .ended t v (.result (.error (.terminal m))) :: .began v :: x.history k →
    (x.controller.queue.waiting.get? k = none → k ∉ x.controller.queue.due →
      y.history k = z.history k) ∧
    (y.history k = z.history k → k ∉ y.controller.queue.processing →
      (k ∉ y.controller.queue.ready ∧ k ∉ y.controller.queue.dirty ∧
          y.controller.queue.waiting.get? k = none ∧ k ∉ y.controller.queue.due ↔
        x.controller.queue.waiting.get? k = none ∧ k ∉ x.controller.queue.due) ∧
      ∀ due, x.controller.queue.waiting.get? k = some due →
        k ∈ y.controller.queue.ready ∨ k ∈ y.controller.queue.due ∨
          y.controller.queue.waiting.get? k = some due) := by
  intro x z y lawful spares began ended
  obtain ⟨lawful₀, lawful⟩ := (lawful_append _ _ _).mp lawful
  obtain ⟨lawful₁, lawful₂⟩ := (lawful_append x (a :: l₁) l₂).mp lawful
  obtain ⟨spares₁, spares₂⟩ := (System.throughout_append _ _ x (a :: l₁) l₂).mp spares
  have sound : x.Sound o.backoff := (sound_opened name o watches r s).run lawful₀
  have sound₁ : z.Sound o.backoff := sound.run lawful₁
  have sound₂ : y.Sound o.backoff := sound₁.run lawful₂
  obtain ⟨view, shows_⟩ := sound.shows k
  have idle : ¬ view.slot.IsPending ↔
      x.controller.queue.waiting.get? k = none ∧ k ∉ x.controller.queue.due := by
    rw [shows_.slot]
    exact not_isPending_iff _ _
  -- From the act that hands the key out to the end of the attempt, and on from there.
  obtain ⟨view', shows', since⟩ := since_next sound shows_ lawful₁.1 spares₁.1 began
  obtain ⟨view₁, shows₁, since₁⟩ : ∃ view₁, z.Shows k view₁ ∧ view₁.Since v _ _ :=
    (sound.next lawful₁.1).keeps (fun _ _ h step => h.step step) lawful₁.2 (.inl spares₁.2) shows'
      since
  obtain ⟨view₂, shows₂, since₂, grown⟩ : ∃ view₂, y.Shows k view₂ ∧ view₂.Since v _ _ ∧
      view₁.history <:+ view₂.history :=
    sound₁.keeps (fun _ _ h step => ⟨h.1.step step, h.2.trans step.grows⟩) lawful₂ (.inl spares₂)
      shows₁ ⟨since₁, List.suffix_refl _⟩
  rw [shows₁.history, ended] at grown
  refine ⟨fun none_ nothing => ?_, fun same away => ?_⟩
  · rw [← shows₂.history, since₂.rests (idle.mpr ⟨none_, nothing⟩) grown, ended]
  · have calm := since₂.calm (shows₂.history.trans (same.trans ended))
    have free : view₂.holder = none :=
      Option.not_isSome_iff_eq_none.mp (mt shows₂.mem_processing_iff.mpr away)
    refine ⟨(unwanted_iff sound₂ shows₂ free).symm.trans ((not_congr calm.wanted).trans idle),
      fun due waits => ?_⟩
    have stood : view.slot.waiting = some due := (congrArg Slot.waiting shows_.slot).trans waits
    rcases calm.stands due stood with wanted | owed | stands
    · exact .inl ((shows₂.mem_ready_iff sound₂).mpr ⟨wanted, free⟩)
    · rw [shows₂.slot] at owed
      exact .inr (.inl (List.count_pos_iff.mp owed))
    · exact .inr (.inr ((congrArg Slot.waiting shows₂.slot).symm.trans stands))

/-- A first attempt that ends for good is the last one of its key. -/
theorem rests_iff_first :
    let x := (drilled [.result (.error (.terminal "bad spec"))]).run [.add drilledKey]
    let z := x.run (steps 2)
    let y := z.run (steps 3 ++ [.pass 60000000000])
    x.controller.queue.waiting.get? drilledKey = none ∧ drilledKey ∉ x.controller.queue.due ∧
      z.history drilledKey =
        .ended 0 ⟨drilledKey, 0⟩ (.result (.error (.terminal "bad spec"))) ::
          .began ⟨drilledKey, 0⟩ :: x.history drilledKey ∧
      y.history drilledKey = z.history drilledKey ∧
      drilledKey ∉ y.controller.queue.ready ∧ drilledKey ∉ y.controller.queue.dirty ∧
      y.controller.queue.waiting.get? drilledKey = none ∧
      drilledKey ∉ y.controller.queue.due := by
  have spares : ((drilled [.result (.error (.terminal "bad spec"))]).run [.add drilledKey]).Spares
      drilledKey (steps 2 ++ (steps 3 ++ [.pass 60000000000])) :=
    ⟨id, id, id, id, id, id, trivial⟩
  obtain ⟨stays, rests⟩ := rests_iff "pool" default [] Trial.Drill.reconciler
    (script [.result (.error (.terminal "bad spec"))]) [.add drilledKey] (.task (.runner 0))
    (steps 1) (steps 3 ++ [Act.pass 60000000000]) drilledKey ⟨drilledKey, 0⟩ 0 "bad spec"
    (by decide) spares (List.suffix_refl _) rfl
  have stayed := stays rfl (by decide)
  exact ⟨rfl, by decide, rfl, stayed, (rests stayed (by decide)).1.mpr ⟨rfl, by decide⟩⟩

/-- A first attempt fails, an add in the meantime has a second one made, which ends for good, and
when the backoff of the first has passed the key is handed out for a third. -/
theorem retried_after_terminal :
    let start := drilled [.result (.error (.retryable "busy")),
      .result (.error (.terminal "bad spec"))]
    let l := firstAttempt ++ steps 3 ++ [.pass 50000000, .add drilledKey]
    let l' := steps 5 ++
      [.pass 50000000, .task (.expire drilledKey 100000000), .task (.deliver drilledKey),
        .task (.runner 0)]
    let x := start.run l
    let z := x.run (steps 2)
    start.Lawful (l ++ l') ∧ x.Punctual l' ∧ x.Spares drilledKey l' ∧
      z.history drilledKey =
        .ended 50000000 ⟨drilledKey, 1⟩ (.result (.error (.terminal "bad spec"))) ::
          .began ⟨drilledKey, 1⟩ :: x.history drilledKey ∧
      (x.run l').history drilledKey = .began ⟨drilledKey, 0⟩ :: z.history drilledKey :=
  ⟨by decide, by decide, ⟨id, id, id, id, id, id, id, id, id, trivial⟩, rfl, rfl⟩

end Shift

end PoolControl
