import PoolControl.Proofs.Controller.Shift
import PoolControl.Proofs.Queue.Slot

/-! One key on a shift.

To argue about one key it is enough to look at its `KeyView`: what the queue shows of it, which
runner has it and what that is about, and the history of the key. A runner that died with the key
has it still. `simulate` says that whatever happens on the shift, each view takes a step of
`KeyView.Step`, which has one case for everything that can happen to a key, unless the key is
added from outside. -/
namespace PoolControl

variable {σ ρ : Type}

/-! ### Views of one key -/

/-- What a runner that has a key is about. -/
inductive Work
  | attempting (v : Visit)
  | closing (todo : List Closing)
  /-- The runner died. -/
  | crashed

namespace Work

/-- What a runner is about once an attempt got so far. -/
def of (v : Visit) : Option Ending → Work
  | some e => .closing (Result.closings e.settled)
  | none => .attempting v

end Work

namespace Runner

/-- What a runner is about with a key, if it has it. -/
def work? (k : Key) : Runner ρ → Option Work
  | .sleeping v _ _ _ => if v.key = k then some (.attempting v) else none
  | .holding v _ _ => if v.key = k then some (.attempting v) else none
  | .resuming v _ => if v.key = k then some (.attempting v) else none
  | .closing k' todo => if k' = k ∧ todo.contains .done then some (.closing todo) else none
  | .crashed k' => if k' = k then some .crashed else none
  | _ => none

theorem work_pause (now : Instant) (v : Visit) (pauses : List Pause) (rest : ρ) (k : Key) :
    (pause now v pauses rest).work? k = if v.key = k then some (.attempting v) else none := by
  rcases pauses with _ | ⟨_ | _, _⟩ <;> rfl

theorem isClosing_of_work {k : Key} {runner : Runner ρ} {todo : List Closing}
    (h : runner.work? k = some (.closing todo)) : runner.isClosing = true := by
  cases runner with
  | closing => rfl
  | sleeping v | holding v | resuming v | crashed k' =>
    simp only [work?] at h
    split at h <;> cases h
  | _ => cases h

/-- What is told after an attempt ends with giving the key back, and has that nowhere else. -/
theorem closings_eq (r : Result) : ∃ told, r.closings = told ++ [.done] ∧ .done ∉ told := by
  rcases r with (_ | _) | (_ | d)
  · exact ⟨[.addRateLimited], rfl, by decide⟩
  · exact ⟨[.forget], rfl, by decide⟩
  · exact ⟨[.forget], rfl, by decide⟩
  · exact ⟨[.forget, .addAfter d], rfl, by simp⟩

theorem work_after (now : Instant) (v : Visit) (p : Progress ρ) (k : Key) :
    (after now v p).work? k = if v.key = k then some (.of v p.ending?) else none := by
  cases p with
  | ended e =>
    obtain ⟨told, all, -⟩ := closings_eq e.settled
    have last : (Result.closings e.settled).contains .done = true :=
      List.contains_iff_mem.mpr (all ▸ List.mem_append_right told (List.mem_singleton_self _))
    simp only [after, work?, last, and_true]
    rfl
  | paused pauses rest => exact work_pause now v pauses rest k

end Runner

/-- What a shift shows of one key. -/
structure KeyView where
  now : Instant
  slot : Slot
  /-- The runner that has the key, with what it is about. -/
  holder : Option (Nat × Work)
  history : List Entry

/-- What a runner tells the queue, as the slot of its key sees it. -/
def Closing.tell (p : Backoff.Policy) (now : Instant) (s : Slot) : Closing → Slot
  | .forget => s.forget
  | .addAfter d => s.addAfter now d
  | .addRateLimited => s.addRateLimited p now
  | .done => s.done

/-- Whether the queue returns from what it is told. -/
def Closing.returns (p : Backoff.Policy) (now : Instant) (s : Slot) : Closing → Bool
  | .addAfter d => WorkQueue.admits now d
  | .addRateLimited => WorkQueue.admits now (p.delay s.failures)
  | _ => true

/-- What can happen to a key, unless it is added from outside. -/
inductive KeyView.Step (p : Backoff.Policy) (k : Key) : KeyView → KeyView → Prop
  | rest {x} : Step p k x x
  | pass {x} (time : Nat) (free : ∀ i todo, x.holder ≠ some (i, .closing todo)) :
      Step p k x { x with now := x.now + time }
  | expire {x t} (stands : x.slot.waiting = some t) (reached : t ≤ x.now) :
      Step p k x { x with slot := x.slot.expire }
  | deliver {x} (due : 0 < x.slot.due) : Step p k x { x with slot := x.slot.deliver }
  | take {x} (i : Nat) (e : Option Ending) (ready : x.slot.dirty = true) (free : x.holder = none) :
      Step p k x
        { x with
          slot := x.slot.take
          holder := some (i, .of ⟨k, x.slot.failures⟩ e)
          history := Entry.ends x.now ⟨k, x.slot.failures⟩ e ++
            .began ⟨k, x.slot.failures⟩ :: x.history }
  | attempt {x i v} (e : Option Ending) (at_ : x.holder = some (i, .attempting v)) :
      Step p k x
        { x with
          holder := some (i, .of v e)
          history := Entry.ends x.now v e ++ x.history }
  | tell {x i c todo} (at_ : x.holder = some (i, .closing (c :: todo))) (more : c ≠ .done)
      (returns : c.returns p x.now x.slot = true) :
      Step p k x
        { x with slot := c.tell p x.now x.slot, holder := some (i, .closing todo) }
  | crash {x i c todo} (at_ : x.holder = some (i, .closing (c :: todo)))
      (panics : c.returns p x.now x.slot = false) :
      Step p k x { x with slot := c.tell p x.now x.slot, holder := some (i, .crashed) }
  | done {x i} (at_ : x.holder = some (i, .closing [.done])) :
      Step p k x { x with slot := x.slot.done, holder := none }

/-- What an add from outside does to a key. -/
inductive KeyView.Added : KeyView → KeyView → Prop
  | add {x} : Added x { x with slot := x.slot.add }
  | addAfter {x} (d : Duration) : Added x { x with slot := x.slot.addAfter x.now d }

namespace Shift

/-- Whether a view is what a shift shows of a key. -/
structure Shows (x : Shift σ ρ) (k : Key) (view : KeyView) : Prop where
  now : view.now = x.now
  slot : view.slot = x.controller.queue.slot k
  history : view.history = x.history k
  holder : ∀ i w, view.holder = some (i, w) ↔
    ∃ runner, x.controller.runners[i]? = some runner ∧ runner.work? k = some w
  held : view.slot.held = view.holder.isSome

/-- Whether what a runner has to tell the queue is the rest of what an attempt ended with. -/
def Regular (runner : Runner ρ) : Prop :=
  ∀ k todo, runner = .closing k todo → ∃ r : Result, todo <:+ r.closings

/-- A shift in order. -/
structure Sound (p : Backoff.Policy) (x : Shift σ ρ) : Prop where
  fit : x.controller.queue.Fit p
  running : x.controller.phase = .running
  journaled : ∃ r : Reconciler σ ρ, x.controller.reconciler = r.journaled
  beside : ∀ w ∈ x.controller.watches, ∃ w' : Watch σ, w = w'.beside
  regular : ∀ runner ∈ x.controller.runners, Regular runner
  shows : ∀ k, ∃ view, x.Shows k view

variable {p : Backoff.Policy} {x : Shift σ ρ} {k : Key} {view view' : KeyView} {i : Nat}
  {runner runner' : Runner ρ}

/-- At first nobody wants or has a key. -/
theorem shows_opened (name : String) (o : Controller.Options) (watches : List (Watch σ))
    (r : Reconciler σ ρ) (s : σ) (k : Key) :
    (opened name o watches r s).Shows k ⟨0, .vacant, none, []⟩ := by
  refine ⟨rfl, rfl, rfl, fun i w => iff_of_false nofun fun ⟨runner, h, hw⟩ => ?_, rfl⟩
  cases List.eq_of_mem_replicate (List.mem_of_getElem? h)
  cases hw

theorem sound_opened (name : String) (o : Controller.Options) (watches : List (Watch σ))
    (r : Reconciler σ ρ) (s : σ) : (opened name o watches r s).Sound o.backoff := by
  refine ⟨.new _, rfl, ⟨r, rfl⟩, fun w hw => ?_, fun runner h k todo e => ?_,
    fun k => ⟨_, shows_opened name o watches r s k⟩⟩
  · obtain ⟨w', -, rfl⟩ := List.mem_map.mp hw
    exact ⟨w', rfl⟩
  · cases (List.eq_of_mem_replicate h).symm.trans e

/-! ### The next step of a runner -/

/-- Who has a key after a step of runner `i`, which was about `before` and is about `after`
with it. -/
def turn (i : Nat) (before after : Option Work) (holder : Option (Nat × Work)) :
    Option (Nat × Work) :=
  match after with
  | some w => some (i, w)
  | none => if before.isSome then none else holder

theorem turn_iff {runners : List (Runner ρ)} {holder : Option (Nat × Work)}
    (h : ∀ j w, holder = some (j, w) ↔
      ∃ runner, runners[j]? = some runner ∧ runner.work? k = some w)
    (at_ : runners[i]? = some runner)
    (free : runner.work? k = none → runner'.work? k ≠ none → holder = none) (j : Nat) (w : Work) :
    turn i (runner.work? k) (runner'.work? k) holder = some (j, w) ↔
      ∃ r, (runners.set i runner')[j]? = some r ∧ r.work? k = some w := by
  have within : i < runners.length := (List.getElem?_eq_some_iff.mp at_).1
  have own (w : Work) (hw : runner.work? k = some w) : holder = some (i, w) :=
    (h i w).mpr ⟨runner, at_, hw⟩
  by_cases hj : i = j
  · subst hj
    have new : (∃ r, (runners.set i runner')[i]? = some r ∧ r.work? k = some w) ↔
        runner'.work? k = some w := by
      rw [List.getElem?_set_self within]
      exact ⟨fun ⟨r, e, hw⟩ => Option.some.inj e ▸ hw, fun hw => ⟨runner', rfl, hw⟩⟩
    rw [new]
    unfold turn
    cases hw : runner'.work? k with
    | some w' => simp only [Option.some.injEq, Prod.mk.injEq, true_and]
    | none =>
      refine iff_of_false (fun e => ?_) nofun
      cases hb : runner.work? k with
      | some w' =>
        simp only [hb, Option.isSome_some, if_true] at e
        cases e
      | none =>
        simp only [hb, Option.isSome_none, Bool.false_eq_true, if_false] at e
        obtain ⟨r, hr, hw⟩ := (h i w).mp e
        rw [← Option.some.inj (at_.symm.trans hr), hb] at hw
        cases hw
  · rw [List.getElem?_set_ne hj, ← h j w]
    unfold turn
    cases hb : runner.work? k with
    | some w₀ =>
      have other : holder ≠ some (j, w) := by
        rw [own w₀ hb]
        exact fun e => hj (Prod.mk.inj (Option.some.inj e)).1
      refine iff_of_false (fun e => ?_) other
      cases hw : runner'.work? k with
      | some w' =>
        simp only [hw] at e
        exact hj (Prod.mk.inj (Option.some.inj e)).1
      | none =>
        simp only [hw, Option.isSome_some, if_true] at e
        cases e
    | none =>
      cases hw : runner'.work? k with
      | some w' =>
        have nobody := free hb (by rw [hw]; nofun)
        rw [nobody]
        exact iff_of_false (fun e => hj (Prod.mk.inj (Option.some.inj e)).1) nofun
      | none =>
        simp only [Option.isSome_none, Bool.false_eq_true, if_false]

/-- The shift after a step of runner `i`. -/
def stepped (x : Shift σ ρ) (i : Nat) (out : Runner ρ × WorkQueue Key × σ × List Entry) :
    Shift σ ρ :=
  { x with
    controller := { x.controller with
      queue := out.2.1, runners := x.controller.runners.set i out.1 }
    state := out.2.2 }

variable {out : Runner ρ × WorkQueue Key × σ × List Entry} {slot : Slot} {after : Option Work}
  {history : List Entry}

theorem Shows.stepped (h : x.Shows k view) (at_ : x.controller.runners[i]? = some runner)
    (work : out.1.work? k = after) (shown : out.2.1.slot k = slot)
    (entered : out.2.2.2.filter (·.key = k) = history)
    (free : runner.work? k = none → after ≠ none → view.holder = none)
    (held : slot.held = (turn i (runner.work? k) after view.holder).isSome) :
    (x.stepped i out).Shows k
      ⟨view.now, slot, turn i (runner.work? k) after view.holder, history⟩ := by
  subst work shown entered
  exact ⟨h.now, rfl, rfl, turn_iff h.holder at_ free, held⟩

/-- A runner that is about something with a key has it. -/
theorem Shows.own (h : x.Shows k view) (at_ : x.controller.runners[i]? = some runner) {w : Work}
    (hw : runner.work? k = some w) : view.holder = some (i, w) :=
  (h.holder i w).mpr ⟨runner, at_, hw⟩

/-- A runner that has a key before and after a step. -/
theorem Shows.goes_on (h : x.Shows k view) (at_ : x.controller.runners[i]? = some runner)
    {before w : Work} (had : runner.work? k = some before) (work : out.1.work? k = some w)
    (shown : out.2.1.slot k = slot) (held : slot.held = view.slot.held)
    (entered : out.2.2.2.filter (·.key = k) = history) :
    (x.stepped i out).Shows k ⟨view.now, slot, some (i, w), history⟩ := by
  refine h.stepped at_ work shown entered (fun none_ => ?_) ?_
  · rw [had] at none_
    cases none_
  · rw [held, h.held, h.own at_ had]
    rfl

/-- A runner that gives a key back in a step. -/
theorem Shows.lets_go (h : x.Shows k view) (at_ : x.controller.runners[i]? = some runner)
    {before : Work} (had : runner.work? k = some before) (work : out.1.work? k = none)
    (shown : out.2.1.slot k = slot) (held : slot.held = false)
    (entered : out.2.2.2.filter (·.key = k) = history) :
    (x.stepped i out).Shows k ⟨view.now, slot, none, history⟩ := by
  have nobody : turn i (runner.work? k) none view.holder = none := by
    rw [had]
    rfl
  have shows_ := h.stepped at_ work shown entered (fun _ some_ => absurd rfl some_)
    (by rw [nobody]; exact held)
  rwa [nobody] at shows_

/-- A step that leaves a key as it is. -/
theorem Shows.same (h : x.Shows k view) (at_ : x.controller.runners[i]? = some runner)
    (work : out.1.work? k = runner.work? k) (shown : out.2.1.slot k = x.controller.queue.slot k)
    (entered : out.2.2.2.filter (·.key = k) = x.history k) : (x.stepped i out).Shows k view := by
  have stays : turn i (runner.work? k) (runner.work? k) view.holder = view.holder := by
    unfold turn
    cases hw : runner.work? k with
    | some w => exact (h.own at_ hw).symm
    | none => rfl
  have shows_ := h.stepped at_ work shown entered (fun none_ some_ => absurd none_ some_)
    (by rw [stays, ← h.slot]; exact h.held)
  rw [stays, ← h.slot, ← h.history] at shows_
  exact shows_

/-- A runner asks a queue that is that of the shift, the bell apart. -/
theorem simulate_receive (r : Reconciler σ ρ) (h : x.Shows k view)
    (at_ : x.controller.runners[i]? = some runner) (idle : runner.work? k = none)
    {q : WorkQueue Key} (fit : q.Fit p) (same : q.slot k = x.controller.queue.slot k) :
    ∃ view', (x.stepped i
      (Runner.receive r.journaled ⟨x.now, false⟩ x.state (q.ask i))).Shows k view' ∧
      KeyView.Step p k view view' := by
  cases hr : q.ready with
  | nil =>
    obtain ⟨found, shown⟩ := WorkQueue.slot_ask_of_nil fit.open_ hr i k
    rw [show q.ask i = (.nothing, (q.ask i).2) from Prod.ext found rfl]
    exact ⟨view, h.same at_ idle.symm (shown.trans same) rfl, .rest⟩
  | cons k' rest =>
    obtain ⟨found, shown⟩ := WorkQueue.slot_ask_of_cons fit.open_ hr i k
    let v : Visit := ⟨k', (q.ask i).2.requeues k'⟩
    let e := (r.start ⟨x.now, false⟩ v x.state.1).1.ending?
    rw [show q.ask i = (.key k', (q.ask i).2) from Prod.ext found rfl]
    have work := Runner.work_after x.now v (r.start ⟨x.now, false⟩ v x.state.1).1 k
    have entered : (Entry.ends x.now v e ++ .began v :: x.state.2).filter (·.key = k) =
        (if k' = k then Entry.ends x.now v e else []) ++
          ((if k' = k then [.began v] else []) ++ x.history k) := by
      rw [Entry.filter_ends, Entry.filter_began]
      rfl
    by_cases hk : k' = k
    · subst hk
      obtain ⟨ready, free⟩ := (WorkQueue.mem_ready_iff fit.tidy fit.open_ k').mp
        (by rw [hr]; exact List.mem_cons_self ..)
      rw [same, ← h.slot] at ready free
      have nobody : view.holder = none := by
        rw [← Option.not_isSome_iff_eq_none, ← h.held, free]
        exact Bool.false_ne_true
      rw [if_pos rfl, same, ← h.slot] at shown
      rw [if_pos rfl, if_pos rfl, ← h.history] at entered
      rw [if_pos rfl] at work
      have visit : v = ⟨k', view.slot.failures⟩ :=
        congrArg (Visit.mk k') (congrArg Slot.failures shown)
      have took : KeyView.Step p k' view _ := .take i e ready nobody
      rw [← visit, h.now] at took
      refine ⟨_, h.stepped at_ work shown entered (fun _ _ => nobody) rfl, ?_⟩
      rw [h.now]
      exact took
    · rw [if_neg hk] at shown work
      rw [if_neg hk, if_neg hk] at entered
      exact ⟨view, h.same at_ (work.trans idle.symm) (shown.trans same) entered, .rest⟩

/-- What a runner tells last after an attempt, and only that, gives the key back. -/
theorem done_last {r : Result} {c : Closing} {todo : List Closing} (h : c :: todo <:+ r.closings) :
    c = .done ∧ todo = [] ∨ c ≠ .done ∧ .done ∈ todo := by
  obtain ⟨told, all, once⟩ := Runner.closings_eq r
  rw [all] at h
  rcases List.suffix_concat_iff.mp h with none_ | ⟨_ | ⟨c', rest⟩, same, part⟩
  · cases none_
  · exact .inl (List.cons.inj same)
  · obtain ⟨rfl, rfl⟩ := List.cons.inj same
    refine .inr ⟨fun last => once ?_, List.mem_append_right rest (List.mem_singleton_self _)⟩
    exact last ▸ part.subset (List.mem_cons_self ..)

theorem slot_apply {q : WorkQueue Key} (fit : q.Fit p) (now : Instant) (c : Closing) (k' k : Key) :
    (c.apply now k' q).1.slot k = if k' = k then c.tell p now (q.slot k) else q.slot k := by
  cases c with
  | forget => exact WorkQueue.slot_forget q k' k
  | addAfter d => exact WorkQueue.slot_addAfter fit.open_ now k' k d
  | addRateLimited =>
    rw [← fit.policy]
    exact WorkQueue.slot_addRateLimited fit.open_ now k' k
  | done => exact WorkQueue.slot_done q k' k

theorem returns_apply {q : WorkQueue Key} (fit : q.Fit p) (now : Instant) (c : Closing) (k : Key) :
    (c.apply now k q).2 = c.returns p now (q.slot k) := by
  cases c with
  | addAfter d => exact WorkQueue.addAfter_snd q now k d
  | addRateLimited =>
    rw [← fit.policy]
    exact WorkQueue.addAfter_snd _ now k (q.backoff.nextDelay k)
  | _ => rfl

theorem held_addAfter (now : Instant) (s : Slot) (d : Duration) :
    (s.addAfter now d).held = s.held := by
  unfold Slot.addAfter
  split
  · rfl
  · cases now.after? d <;> rfl

/-- Only giving a key back changes who has it. -/
theorem held_tell {c : Closing} (more : c ≠ .done) (now : Instant) (s : Slot) :
    (c.tell p now s).held = s.held := by
  cases c with
  | forget => rfl
  | addAfter d => exact held_addAfter now s d
  | addRateLimited => exact held_addAfter now s.fail _
  | done => exact absurd rfl more

theorem work_closing {todo : List Closing} (h : .done ∈ todo) (k : Key) :
    (Runner.closing k todo : Runner ρ).work? k = some (.closing todo) := by
  simp [Runner.work?, h]

/-- A runner that has told everything has no key. -/
theorem work_closing_nil (k' k : Key) : (Runner.closing k' [] : Runner ρ).work? k = none :=
  if_neg fun e => List.not_mem_nil (List.contains_iff_mem.mp e.2)

/-- A runner tells the queue how an attempt ended. -/
theorem simulate_closing (sound : x.Sound p) (h : x.Shows k view) {k' : Key} {c : Closing}
    {todo : List Closing} (at_ : x.controller.runners[i]? = some (.closing k' (c :: todo))) :
    ∃ view', (x.stepped i
      ((Runner.closing k' (c :: todo)).step x.controller.reconciler ⟨x.now, false⟩ i
        x.controller.queue x.state)).Shows k view' ∧ KeyView.Step p k view view' := by
  obtain ⟨r, rest⟩ := sound.regular _ (List.mem_of_getElem? at_) k' _ rfl
  have shown := slot_apply sound.fit x.now c k' k
  have told := returns_apply sound.fit x.now c k'
  simp only [Runner.step]
  by_cases hk : k' = k
  · subst hk
    rw [if_pos rfl, ← h.slot, ← h.now] at shown
    rw [← h.slot, ← h.now] at told
    rcases done_last rest with ⟨rfl, rfl⟩ | ⟨more, last⟩
    · have had := work_closing (ρ := ρ) (List.mem_singleton_self Closing.done) k'
      exact ⟨_, h.lets_go at_ had (work_closing_nil k' k') shown rfl h.history.symm,
        .done (h.own at_ had)⟩
    · have had := work_closing (ρ := ρ) (List.mem_cons_of_mem c last) k'
      rw [← h.now, told]
      cases returned : c.returns p view.now view.slot with
      | true =>
        exact ⟨_, h.goes_on at_ had (work_closing last k') shown (held_tell more _ _)
          h.history.symm, .tell (h.own at_ had) more returned⟩
      | false =>
        exact ⟨_, h.goes_on at_ had (if_pos rfl) shown (held_tell more _ _) h.history.symm,
          .crash (h.own at_ had) returned⟩
  · rw [if_neg hk] at shown
    have other (todo : List Closing) : (Runner.closing k' todo : Runner ρ).work? k = none :=
      if_neg fun e => hk e.1
    have died : (Runner.crashed k' : Runner ρ).work? k = none := if_neg hk
    refine ⟨view, h.same at_ ?_ shown rfl, .rest⟩
    cases (c.apply x.now k' x.controller.queue).2
    · exact died.trans (other _).symm
    · exact (other todo).trans (other _).symm

/-- A runner takes its next step. -/
theorem simulate_runner (sound : x.Sound p) (h : x.Shows k view)
    (at_ : x.controller.runners[i]? = some runner) :
    ∃ view', (x.stepped i (runner.step x.controller.reconciler ⟨x.now, false⟩ i x.controller.queue
      x.state)).Shows k view' ∧ KeyView.Step p k view view' := by
  obtain ⟨r, hr⟩ := sound.journaled
  rw [hr]
  cases runner with
  | asking => exact simulate_receive r h at_ rfl sound.fit rfl
  | waiting => exact simulate_receive r h at_ rfl (sound.fit.bell _) rfl
  | sleeping v t later rest =>
    exact ⟨view, h.same at_ (Runner.work_pause ..) rfl rfl, .rest⟩
  | holding v later rest =>
    exact ⟨view, h.same at_ (Runner.work_pause ..) rfl rfl, .rest⟩
  | resuming v rest =>
    let e := (r.resume ⟨x.now, false⟩ v rest x.state.1).1.ending?
    have work := Runner.work_after x.now v (r.resume ⟨x.now, false⟩ v rest x.state.1).1 k
    have entered : (Entry.ends x.now v e ++ x.state.2).filter (·.key = k) =
        (if v.key = k then Entry.ends x.now v e else []) ++ x.history k := Entry.filter_ends ..
    by_cases hk : v.key = k
    · have had : (Runner.resuming v rest).work? k = some (.attempting v) := if_pos hk
      rw [if_pos hk] at work
      rw [if_pos hk, ← h.history] at entered
      have step : KeyView.Step p k view _ := .attempt e (h.own at_ had)
      refine ⟨_, h.goes_on at_ had work h.slot.symm rfl entered, ?_⟩
      rw [h.now] at step ⊢
      exact step
    · have other : (Runner.resuming v rest).work? k = none := if_neg hk
      rw [if_neg hk] at work entered
      exact ⟨view, h.same at_ (work.trans other.symm) rfl entered, .rest⟩
  | closing k' todo =>
    cases todo with
    | nil => exact ⟨view, h.same at_ (work_closing_nil k' k).symm rfl rfl, .rest⟩
    | cons c todo =>
      rw [← hr]
      exact simulate_closing sound h at_
  | crashed k' => exact ⟨view, h.same at_ rfl rfl rfl, .rest⟩
  | gone => exact ⟨view, h.same at_ rfl rfl rfl, .rest⟩

/-! ### The next act -/

/-- The shift with another queue and another state, and everybody where they were. -/
def moved (x : Shift σ ρ) (q : WorkQueue Key) (s : σ × List Entry) : Shift σ ρ :=
  { x with controller := { x.controller with queue := q }, state := s }

theorem Shows.moved (h : x.Shows k view) {q : WorkQueue Key} {s : σ × List Entry}
    (shown : q.slot k = slot) (held : slot.held = view.slot.held) (same : s.2 = x.state.2) :
    (x.moved q s).Shows k { view with slot } := by
  subst shown
  refine ⟨h.now, rfl, ?_, h.holder, held.trans h.held⟩
  show view.history = s.2.filter (·.key = k)
  rw [same]
  exact h.history

theorem next_watch {j : Nat} {ks : OrderedSet Key} {s : σ × List Entry}
    (h : x.controller.watches[j]?.bind (·.next x.state) = some (ks, s)) :
    x.next (.task (.watch j)) =
      x.moved ((OrderedSet.elements ks).foldl WorkQueue.add x.controller.queue) s := by
  simp only [next, Controller.step, h]
  rfl

theorem next_runner (at_ : x.controller.runners[i]? = some runner) :
    x.next (.task (.runner i)) = x.stepped i
      (runner.step x.controller.reconciler ⟨x.now, false⟩ i x.controller.queue x.state) := by
  simp only [next, Controller.step, at_]
  rfl

/-- The tasks that may take a step: watches with an event, runners, timers whose time has come, and
the adds of keys that are due. Stopping is not one of them. -/
theorem allows_task (sound : x.Sound p) {t : Controller.Task} (allowed : x.Allows (.task t)) :
    (∃ j ks s, t = .watch j ∧ x.controller.watches[j]?.bind (·.next x.state) = some (ks, s)) ∨
      (∃ i runner, t = .runner i ∧ x.controller.runners[i]? = some runner) ∨
      (∃ k due, t = .expire k due ∧ due ≤ x.now) ∨
      ∃ k, t = .deliver k ∧ k ∈ x.controller.queue.due := by
  cases t with
  | stop =>
    simp only [Allows, Controller.isReady, sound.running] at allowed
    cases allowed
  | watch j =>
    obtain ⟨-, event⟩ := Bool.and_eq_true_iff.mp allowed
    obtain ⟨⟨ks, s⟩, h⟩ := Option.isSome_iff_exists.mp event
    exact .inl ⟨j, ks, s, rfl, h⟩
  | runner i =>
    cases at_ : x.controller.runners[i]? with
    | none =>
      simp only [Allows, Controller.isReady, at_] at allowed
      cases allowed
    | some runner => exact .inr (.inl ⟨i, runner, rfl, at_⟩)
  | expire k due =>
    obtain ⟨reached, -⟩ := Bool.and_eq_true_iff.mp allowed
    exact .inr (.inr (.inl ⟨k, due, rfl, of_decide_eq_true reached⟩))
  | deliver k => exact .inr (.inr (.inr ⟨k, rfl, List.contains_iff_mem.mp allowed⟩))

/-- A watch leaves the journal alone. -/
theorem journal_watch (sound : x.Sound p) {j : Nat} {ks : OrderedSet Key} {s : σ × List Entry}
    (h : x.controller.watches[j]?.bind (·.next x.state) = some (ks, s)) : s.2 = x.state.2 := by
  obtain ⟨w, hw, event⟩ := Option.bind_eq_some_iff.mp h
  obtain ⟨w', rfl⟩ := sound.beside w (List.mem_of_getElem? hw)
  obtain ⟨⟨ks', s'⟩, -, e⟩ := Option.map_eq_some_iff.mp event
  rw [← (Prod.mk.inj e).2]

/-- **Whatever happens on the shift, each key takes a step**, unless it is added from outside. -/
theorem simulate (sound : x.Sound p) {a : Act} (allowed : x.Allows a) (h : x.Shows k view) :
    ∃ view', (x.next a).Shows k view' ∧
      (KeyView.Step p k view view' ∨ x.Adds k a ∧ KeyView.Added view view') := by
  cases a with
  | pass time =>
    refine ⟨{ view with now := view.now + time },
      ⟨congrArg (· + time) h.now, h.slot, h.history, h.holder, h.held⟩, .inl (.pass time ?_)⟩
    intro i todo closing
    obtain ⟨runner, at_, hw⟩ := (h.holder i _).mp closing
    have free := allowed runner (List.mem_of_getElem? at_)
    exact Bool.false_ne_true (free.symm.trans (Runner.isClosing_of_work hw))
  | add k' =>
    have shown := WorkQueue.slot_add sound.fit.open_ k' k
    by_cases hk : k' = k
    · rw [if_pos hk, ← h.slot] at shown
      exact ⟨_, h.moved (s := x.state) shown rfl rfl, .inr ⟨hk, .add⟩⟩
    · rw [if_neg hk, ← h.slot] at shown
      exact ⟨_, h.moved (s := x.state) shown rfl rfl, .inl .rest⟩
  | addAfter k' d =>
    have shown := WorkQueue.slot_addAfter sound.fit.open_ x.now k' k d
    by_cases hk : k' = k
    · rw [if_pos hk, ← h.slot, ← h.now] at shown
      refine ⟨_, h.moved (s := x.state) ?_ (held_addAfter ..) rfl, .inr ⟨hk, .addAfter d⟩⟩
      rw [← h.now]
      exact shown
    · rw [if_neg hk, ← h.slot] at shown
      exact ⟨_, h.moved (s := x.state) shown rfl rfl, .inl .rest⟩
  | task t =>
    rcases allows_task sound allowed with
      ⟨j, ks, s, rfl, event⟩ | ⟨i, runner, rfl, at_⟩ | ⟨k', due, rfl, reached⟩ | ⟨k', rfl, due⟩
    · have shown := WorkQueue.slot_addAll sound.fit.open_ (OrderedSet.elements ks) k
      have same := journal_watch sound event
      rw [next_watch event]
      by_cases hk : k ∈ OrderedSet.elements ks
      · rw [if_pos hk, ← h.slot] at shown
        exact ⟨_, h.moved shown rfl same, .inr ⟨⟨ks, s, event, hk⟩, .add⟩⟩
      · rw [if_neg hk, ← h.slot] at shown
        exact ⟨_, h.moved shown rfl same, .inl .rest⟩
    · rw [next_runner at_]
      obtain ⟨view', shows_, step⟩ := simulate_runner sound h at_
      exact ⟨view', shows_, .inl step⟩
    · have shown := WorkQueue.slot_expire x.controller.queue k' k due
      by_cases hk : k' = k ∧ (x.controller.queue.slot k).waiting = some due
      · rw [if_pos hk, ← h.slot] at shown
        rw [← h.slot] at hk
        exact ⟨_, h.moved (s := x.state) shown rfl rfl,
          .inl (.expire hk.2 (by rw [h.now]; exact reached))⟩
      · rw [if_neg hk, ← h.slot] at shown
        exact ⟨_, h.moved (s := x.state) shown rfl rfl, .inl .rest⟩
    · have shown := WorkQueue.slot_deliver sound.fit.open_ k' k
      by_cases hk : k' = k
      · subst hk
        rw [if_pos rfl, ← h.slot] at shown
        have owed : 0 < view.slot.due := by
          rw [h.slot]
          exact List.count_pos_iff.mpr due
        exact ⟨_, h.moved (s := x.state) shown rfl rfl, .inl (.deliver owed)⟩
      · rw [if_neg hk, ← h.slot] at shown
        exact ⟨_, h.moved (s := x.state) shown rfl rfl, .inl .rest⟩

/-! ### Order is kept -/

theorem regular_pause (now : Instant) (v : Visit) (pauses : List Pause) (rest : ρ) :
    Regular (Runner.pause now v pauses rest) := by
  intro k todo e
  rcases pauses with _ | ⟨_ | _, _⟩ <;> cases e

theorem regular_after (now : Instant) (v : Visit) (progress : Progress ρ) :
    Regular (Runner.after now v progress) := by
  cases progress with
  | ended e =>
    intro k todo h
    cases h
    exact ⟨e.settled, List.suffix_refl _⟩
  | paused pauses rest => exact regular_pause now v pauses rest

theorem regular_receive {τ : Type} (r : Reconciler τ ρ) (m : Moment) (s : τ)
    (found : WorkQueue.Found Key × WorkQueue Key) : Regular (Runner.receive r m s found).1 := by
  obtain ⟨_ | _ | _, q⟩ := found
  · exact regular_after _ _ _
  · exact fun _ _ e => by cases e
  · exact fun _ _ e => by cases e

theorem regular_step {τ : Type} (r : Reconciler τ ρ) (m : Moment) (q : WorkQueue Key) (s : τ)
    (h : Regular runner) : Regular (runner.step r m i q s).1 := by
  cases runner with
  | asking => exact regular_receive r m s _
  | waiting => exact regular_receive r m s _
  | sleeping v t later rest => exact regular_pause _ _ _ _
  | holding v later rest => exact regular_pause _ _ _ _
  | resuming v rest => exact regular_after _ _ _
  | closing k todo =>
    cases todo with
    | nil => exact fun _ _ e => by cases e
    | cons c todo =>
      obtain ⟨result, rest⟩ := h k (c :: todo) rfl
      simp only [Runner.step]
      split
      · intro k' todo' e
        cases e
        exact ⟨result, (List.suffix_cons c todo).trans rest⟩
      · exact fun _ _ e => by cases e
  | crashed | gone => exact fun _ _ e => by cases e

theorem fit_receive {τ : Type} (r : Reconciler τ ρ) (m : Moment) (s : τ)
    {found : WorkQueue.Found Key × WorkQueue Key} (fit : found.2.Fit p) :
    (Runner.receive r m s found).2.1.Fit p := by
  obtain ⟨_ | _ | _, q⟩ := found <;> exact fit

theorem fit_step {τ : Type} (r : Reconciler τ ρ) (m : Moment) {q : WorkQueue Key} (fit : q.Fit p)
    (s : τ) (held : ∀ k todo, runner = .closing k (.done :: todo) → k ∈ q.processing) :
    (runner.step r m i q s).2.1.Fit p := by
  cases runner with
  | asking => exact fit_receive r m s (fit.ask i)
  | waiting => exact fit_receive r m s ((fit.bell _).ask i)
  | closing k todo =>
    cases todo with
    | nil => exact fit
    | cons c todo =>
      cases c with
      | forget => exact fit.forget k
      | addAfter d => exact fit.addAfter m.now k d
      | addRateLimited => exact fit.addRateLimited m.now k
      | done => exact fit.done (held k todo rfl)
  | _ => exact fit

/-- A runner that is about to give a key back has it. -/
theorem Sound.processing (h : x.Sound p) {todo : List Closing}
    (at_ : x.controller.runners[i]? = some (.closing k (.done :: todo))) :
    k ∈ x.controller.queue.processing := by
  obtain ⟨view, shows_⟩ := h.shows k
  have holder := shows_.own at_ (work_closing (List.mem_cons_self ..) k)
  have held := shows_.held
  rw [holder, shows_.slot] at held
  exact held

theorem Sound.moved (h : x.Sound p) {q : WorkQueue Key} {s : σ × List Entry} (fit : q.Fit p)
    (shows_ : ∀ k, ∃ view, (x.moved q s).Shows k view) : (x.moved q s).Sound p :=
  ⟨fit, h.running, h.journaled, h.beside, h.regular, shows_⟩

/-- **Every act keeps the order.** -/
theorem Sound.next (h : x.Sound p) {a : Act} (allowed : x.Allows a) : (x.next a).Sound p := by
  have shows_ (k : Key) : ∃ view, (x.next a).Shows k view := by
    obtain ⟨view, shows_⟩ := h.shows k
    obtain ⟨view', shows', -⟩ := simulate h allowed shows_
    exact ⟨view', shows'⟩
  cases a with
  | pass time => exact ⟨h.fit, h.running, h.journaled, h.beside, h.regular, shows_⟩
  | add k => exact h.moved (s := x.state) (h.fit.add k) shows_
  | addAfter k d => exact h.moved (s := x.state) (h.fit.addAfter x.now k d) shows_
  | task t =>
    rcases allows_task h allowed with
      ⟨j, ks, s, rfl, event⟩ | ⟨i, runner, rfl, at_⟩ | ⟨k, due, rfl, -⟩ | ⟨k, rfl, -⟩
    · rw [next_watch event] at shows_ ⊢
      exact h.moved (h.fit.addAll _) shows_
    · rw [next_runner at_] at shows_ ⊢
      refine ⟨fit_step _ _ h.fit _ fun k todo e => h.processing (e ▸ at_), h.running,
        h.journaled, h.beside, fun runner' hr => ?_, shows_⟩
      rcases List.mem_or_eq_of_mem_set hr with hr | rfl
      · exact h.regular runner' hr
      · exact regular_step _ _ _ _ (h.regular runner (List.mem_of_getElem? at_))
    · exact h.moved (s := x.state) (h.fit.expire k due) shows_
    · exact h.moved (s := x.state) (h.fit.deliver k) shows_

theorem Sound.run (h : x.Sound p) {l : List Act} (hl : x.Lawful l) : (x.run l).Sound p :=
  hl.keeps (fun h ha => h.next ha) h

/-- **What every step of a view keeps holds along a run**, if adds from outside keep it too or
there are none. -/
theorem Sound.keeps {holds : KeyView → Prop} (sound : x.Sound p)
    (step : ∀ a b, holds a → KeyView.Step p k a b → holds b) {l : List Act} (hl : x.Lawful l)
    (added : x.Spares k l ∨ ∀ a b, holds a → KeyView.Added a b → holds b) (h : x.Shows k view)
    (first : holds view) : ∃ view', (x.run l).Shows k view' ∧ holds view' := by
  induction l generalizing x view with
  | nil => exact ⟨view, h, first⟩
  | cons a rest ih =>
    obtain ⟨view', shows_, moved⟩ := simulate sound hl.1 h
    refine ih (sound.next hl.1) hl.2 (added.imp_left And.right) shows_ ?_
    rcases moved with moved | ⟨adds, moved⟩
    · exact step _ _ first moved
    · rcases added with spares | added
      · exact absurd adds spares.1
      · exact added _ _ first moved

/-! ### What a view tells -/

/-- A key is processed if and only if it has a holder, dead or alive. -/
theorem Shows.mem_processing_iff (h : x.Shows k view) :
    k ∈ x.controller.queue.processing ↔ view.holder.isSome = true := by
  rw [← h.held, h.slot]
  exact Iff.rfl

/-- A key is in line if and only if it is dirty and has no holder. -/
theorem Shows.mem_ready_iff (sound : x.Sound p) (h : x.Shows k view) :
    k ∈ x.controller.queue.ready ↔ view.slot.dirty = true ∧ view.holder = none := by
  rw [WorkQueue.mem_ready_iff sound.fit.tidy sound.fit.open_, ← h.slot, h.held,
    Option.isSome_eq_false_iff, Option.isNone_iff_eq_none]

end Shift

end PoolControl
