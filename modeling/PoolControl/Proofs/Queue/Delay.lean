import PoolControl.Proofs.Queue.Service

/-! Delayed adds.

A delayed add of a key goes off at the earliest of the deadlines asked for since the last one
went off, and once. `asked` reads these deadlines off what happened to the queue; a call that
panics, because the clock cannot show when the delay is over, asks for none. Timers are
never taken back, so there may be many for one key, some left over from deadlines that an
earlier one replaced. `Armed` is the invariant that tells them apart: what is kept waiting is
the earliest deadline, and some timer is live for it.

A timer may go off late, but never early. In a `Punctual` run no delayed add is late, since time
passes only up to the next deadline and after everything due was added. `goes_off_once` puts
this together. -/
namespace PoolControl

namespace WorkQueue

variable {K : Type} [Ord K] [Std.TransOrd K] [Std.LawfulEqOrd K] {q q' : WorkQueue K} {k k' : K}
  {now : Instant} {d : Duration} {t : Instant} {deadlines : List Instant}

/-! ### What the operations do to the delayed adds -/

theorem addAfter_of_zero (h : d.isZero = true) : q.addAfter now k d = (q.add k, true) := by
  unfold addAfter
  rw [if_pos h]

/-- A delay that ends later than the clock can show is not set. -/
theorem addAfter_of_beyond (hz : d.isZero = false) (ht : now.after? d = none) :
    q.addAfter now k d = (q, false) := by
  unfold addAfter
  simp only [hz, ht, Bool.false_eq_true, if_false]

/-- A deadline that is not earlier than the one that stands is not kept. -/
theorem addAfter_of_due (hz : d.isZero = false) (ht : now.after? d = some t)
    (hd : q.isDueBy k t = true) : q.addAfter now k d = (q, true) := by
  unfold addAfter
  simp only [hz, ht, hd, Bool.or_true, Bool.false_eq_true, if_false, if_true]

/-- Any other deadline stands from now on, with a timer of its own. -/
theorem addAfter_of_not_due (hz : d.isZero = false) (ht : now.after? d = some t)
    (hs : q.isShutDown = false) (hd : q.isDueBy k t = false) :
    q.addAfter now k d =
      ({ q with waiting := q.waiting.insert k t, timers := q.timers ++ [(k, t)] }, true) := by
  unfold addAfter
  simp only [hz, ht, hd, hs, Bool.or_self, Bool.false_eq_true, if_false]

/-- The deadline of a delay that starts now, if it is one that the clock can show. -/
def deadline? (now : Instant) (d : Duration) : Option Instant :=
  if d.isZero then none else now.after? d

/-- Whether a delayed add that is asked for now returns: it is to happen at once, or the clock can
show when. -/
def admits (now : Instant) (d : Duration) : Bool := d.isZero || (now.after? d).isSome

theorem admits_eq_false :
    admits now d = false ↔ d.isZero = false ∧ Instant.latest < now + d.toNanos := by
  rw [admits, Bool.or_eq_false_iff, Option.isSome_eq_false_iff, Option.isNone_iff_eq_none,
    Instant.after?_eq_none]

theorem addAfter_snd (q : WorkQueue K) (now : Instant) (k : K) (d : Duration) :
    (q.addAfter now k d).2 = admits now d := by
  unfold addAfter admits
  cases d.isZero with
  | true => rfl
  | false =>
    cases now.after? d with
    | none => rfl
    | some t =>
      simp only [Bool.false_eq_true, if_false]
      split <;> rfl

/-- A delayed add that panics leaves the queue as it was. -/
theorem addAfter_of_panic (h : admits now d = false) : q.addAfter now k d = (q, false) := by
  obtain ⟨hz, beyond⟩ := admits_eq_false.mp h
  exact addAfter_of_beyond hz (Instant.after?_eq_none.mpr beyond)

/-- The delayed adds of two queues are the same. -/
structure SameDelays (q q' : WorkQueue K) : Prop where
  waiting : q'.waiting = q.waiting
  timers : q'.timers = q.timers
  due : q'.due = q.due

/-- Keys that come and go leave the delayed adds alone. -/
theorem delays_add (q : WorkQueue K) (k : K) : SameDelays q (q.add k) := by
  rcases add_cases q k with he | ⟨-, -, -, he⟩ | ⟨-, -, -, he⟩ <;> rw [he] <;> exact ⟨rfl, rfl, rfl⟩

theorem delays_take (q : WorkQueue K) : SameDelays q q.take.2 := by
  unfold take
  split
  · exact ⟨rfl, rfl, rfl⟩
  · split <;> exact ⟨rfl, rfl, rfl⟩

theorem delays_ask (q : WorkQueue K) (c : Nat) : SameDelays q (q.ask c).2 := by
  obtain ⟨b, he⟩ := ask_eq q c
  rw [he]
  exact ⟨(delays_take q).waiting, (delays_take q).timers, (delays_take q).due⟩

omit [Std.TransOrd K] [Std.LawfulEqOrd K] in
theorem delays_done (q : WorkQueue K) (k : K) : SameDelays q (q.done k) := by
  rcases done_cases q k with ⟨-, he⟩ | ⟨-, -, he⟩ <;> rw [he] <;> exact ⟨rfl, rfl, rfl⟩

theorem due_addAfter (q : WorkQueue K) (now : Instant) (k : K) (d : Duration) :
    (q.addAfter now k d).1.due = q.due := by
  rcases addAfter_cases q now k d with he | ⟨_, _, he⟩
  · rw [he]
    exact (delays_add q k).due
  · rw [he]

variable [DecidableEq K]

/-- A deadline that is new does not lie in the past. -/
theorem waiting_addAfter {t : Instant} (h : (q.addAfter now k' d).1.waiting.get? k = some t) :
    q.waiting.get? k = some t ∨ now ≤ t := by
  unfold addAfter at h
  split at h
  · rw [(delays_add q k').waiting] at h
    exact .inl h
  · split at h
    · exact .inl h
    · rename_i t' ht
      split at h
      · exact .inl h
      · have h : (q.waiting.insert k' t').get? k = some t := h
        rw [OrderedMap.get?_insert] at h
        split at h
        · cases h
          exact .inr (Instant.le_of_after? ht)
        · exact .inl h

omit [Std.TransOrd K] [Std.LawfulEqOrd K] [DecidableEq K] in
theorem stands_iff : q.stands k t = true ↔ q.waiting.get? k = some t := decide_eq_true_iff

omit [Std.TransOrd K] [Std.LawfulEqOrd K] in
theorem expire_of_standing (h : q.stands k t = true) :
    q.expire k t = { q with
      waiting := q.waiting.erase k, timers := q.timers.erase (k, t), due := q.due ++ [k] } :=
  if_pos h

omit [Std.TransOrd K] [Std.LawfulEqOrd K] in
theorem expire_of_stale (h : q.stands k t = false) :
    q.expire k t = { q with timers := q.timers.erase (k, t) } :=
  if_neg (ne_true_of_eq_false h)

omit [Std.TransOrd K] in
theorem waiting_expire {t' : Instant} (h : (q.expire k' t').waiting.get? k = some t) :
    q.waiting.get? k = some t := by
  cases hs : q.stands k' t'
  · rwa [expire_of_stale hs] at h
  · rw [expire_of_standing hs] at h
    have h : (q.waiting.erase k').get? k = some t := h
    rw [OrderedMap.get?_erase] at h
    split at h
    · cases h
    · exact h

/-- No key is due, and no deadline that stands is earlier than `t`. -/
def OnTime (q : WorkQueue K) (t : Instant) : Prop := q.due = [] ∧ ∀ b ∈ q.waiting.toList, t ≤ b.2

instance (q : WorkQueue K) (t : Instant) : Decidable (q.OnTime t) := by
  unfold OnTime
  infer_instance

omit [Std.TransOrd K] [DecidableEq K] in
theorem OnTime.le (h : q.OnTime now) (stands : q.waiting.get? k = some t) : now ≤ t :=
  h.2 (k, t) (OrderedMap.get?_eq_some_iff.mp stands)

/-! ### The earliest deadline stands -/

/-- Of the deadlines asked for a key, newest first, the earliest stands, and a timer is live
for it. -/
structure Armed (q : WorkQueue K) (k : K) (deadlines : List Instant) : Prop where
  waiting : q.waiting.get? k = deadlines.min?
  timer : ∀ t, q.waiting.get? k = some t → (k, t) ∈ q.timers

omit [Std.TransOrd K] [Std.LawfulEqOrd K] [DecidableEq K] in
theorem armed_new (p : Backoff.Policy) (k : K) : (new p : WorkQueue K).Armed k [] :=
  ⟨rfl, fun _ h => by cases h⟩

omit [Std.TransOrd K] [Std.LawfulEqOrd K] [DecidableEq K] in
theorem Armed.of_same (h : q.Armed k deadlines) (same : SameDelays q q') :
    q'.Armed k deadlines := by
  refine ⟨?_, ?_⟩
  · rw [same.waiting]
    exact h.waiting
  · rw [same.waiting, same.timers]
    exact h.timer

omit [Std.TransOrd K] [Std.LawfulEqOrd K] in
/-- A deadline that is not the earliest is passed over. -/
theorem Armed.pass_over (h : q.Armed k deadlines) (hd : q.isDueBy k' t = true) :
    q.Armed k ((if k' = k then some t else none).toList ++ deadlines) := by
  by_cases hk : k' = k
  · subst hk
    refine ⟨?_, h.timer⟩
    rw [if_pos rfl, Option.toList_some, List.singleton_append, List.min?_cons, ← h.waiting]
    unfold isDueBy at hd
    split at hd
    · rename_i t' stands
      have earlier : t' ≤ t := of_decide_eq_true hd
      rw [stands, Option.elim_some, Nat.min_eq_right earlier]
    · cases hd
  · rw [if_neg hk]
    exact h

/-- The earliest deadline replaces the one that stands, and gets a timer. -/
theorem Armed.set (h : q.Armed k deadlines) (hd : q.isDueBy k' t = false) :
    Armed { q with waiting := q.waiting.insert k' t, timers := q.timers ++ [(k', t)] } k
      ((if k' = k then some t else none).toList ++ deadlines) := by
  by_cases hk : k' = k
  · subst hk
    have found : (q.waiting.insert k' t).get? k' = some t := by
      rw [OrderedMap.get?_insert, if_pos rfl]
    refine ⟨?_, fun t' ht' => ?_⟩
    · rw [found, if_pos rfl, Option.toList_some, List.singleton_append, List.min?_cons, ← h.waiting]
      unfold isDueBy at hd
      split at hd
      · rename_i t' stands
        have later : ¬ t' ≤ t := of_decide_eq_false hd
        rw [stands, Option.elim_some, Nat.min_eq_left (Nat.le_of_not_le later)]
      · rename_i missing
        rw [missing, Option.elim_none]
    · rw [found] at ht'
      rw [← Option.some.inj ht']
      exact List.mem_append_right _ (List.mem_singleton_self _)
  · have same : (q.waiting.insert k' t).get? k = q.waiting.get? k := by
      rw [OrderedMap.get?_insert, if_neg (Ne.symm hk)]
    rw [if_neg hk]
    refine ⟨same.trans h.waiting, fun t' ht' => List.mem_append_left _ (h.timer t' ?_)⟩
    rw [← same]
    exact ht'

theorem Armed.addAfter (h : q.Armed k deadlines) (hs : q.isShutDown = false) (now : Instant)
    (k' : K) (d : Duration) :
    (q.addAfter now k' d).1.Armed k
      ((if k' = k then deadline? now d else none).toList ++ deadlines) := by
  have unasked (none_ : deadline? now d = none) :
      (if k' = k then deadline? now d else none).toList ++ deadlines = deadlines := by
    rw [none_, ite_self]
    rfl
  cases hz : d.isZero with
  | true =>
    rw [unasked (if_pos hz), addAfter_of_zero hz]
    exact h.of_same (delays_add q k')
  | false =>
    have asked : deadline? now d = now.after? d := if_neg (ne_true_of_eq_false hz)
    cases ht : now.after? d with
    | none =>
      rw [unasked (asked.trans ht), addAfter_of_beyond hz ht]
      exact h
    | some t =>
      rw [asked, ht]
      cases hd : q.isDueBy k' t with
      | true =>
        rw [addAfter_of_due hz ht hd]
        exact h.pass_over hd
      | false =>
        rw [addAfter_of_not_due hz ht hs hd]
        exact h.set hd

omit [Std.TransOrd K] in
/-- A timer whose deadline stands leaves none standing. Any other is of no account. -/
theorem Armed.expire (h : q.Armed k deadlines) (k' : K) (t : Instant) :
    (q.expire k' t).Armed k (if k' = k ∧ q.stands k' t = true then [] else deadlines) := by
  cases stands : q.stands k' t with
  | true =>
    rw [expire_of_standing stands]
    by_cases hk : k' = k
    · have gone : (q.waiting.erase k').get? k = none := by
        rw [OrderedMap.get?_erase, if_pos hk.symm]
      rw [if_pos ⟨hk, rfl⟩]
      refine ⟨gone, fun t' ht' => ?_⟩
      rw [gone] at ht'
      cases ht'
    · have same : (q.waiting.erase k').get? k = q.waiting.get? k := by
        rw [OrderedMap.get?_erase, if_neg (Ne.symm hk)]
      rw [if_neg fun e => hk e.1]
      refine ⟨same.trans h.waiting, fun t' ht' => ?_⟩
      refine (List.mem_erase_of_ne fun e => hk (congrArg Prod.fst e).symm).mpr (h.timer t' ?_)
      rw [← same]
      exact ht'
  | false =>
    rw [expire_of_stale stands, if_neg fun e => Bool.false_ne_true e.2]
    refine ⟨h.waiting, fun t' ht' => (List.mem_erase_of_ne fun e => ?_).mpr (h.timer t' ht')⟩
    obtain ⟨hk, ht⟩ := Prod.mk.inj e
    have live : q.stands k' t = true := stands_iff.mpr (by rw [← hk, ← ht]; exact ht')
    exact Bool.false_ne_true (stands.symm.trans live)

end WorkQueue

namespace Service

variable {K : Type} [Ord K] [Std.TransOrd K] [Std.LawfulEqOrd K]

/-! ### What is asked for and what goes off -/

/-- The deadline that a deed asks for a key. -/
def asks? [DecidableEq K] (s : Service K) (k : K) : Deed K → Option Instant
  | .addAfter k' d => if k' = k then WorkQueue.deadline? s.now d else none
  | .addRateLimited k' =>
    if k' = k then WorkQueue.deadline? s.now (s.queue.backoff.nextDelay k') else none
  | _ => none

variable [DecidableEq K]

/-- Whether a deed is the delayed add of a key going off. -/
def goesOff (s : Service K) (k : K) : Deed K → Bool
  | .expire k' t => k' = k ∧ s.queue.stands k' t = true
  | _ => false

/-- The deadlines asked for a key since its delayed add last went off, newest first: those
after a deed, given those before it. -/
def askedNext (s : Service K) (k : K) (a : Deed K) (deadlines : List Instant) : List Instant :=
  if s.goesOff k a then [] else (s.asks? k a).toList ++ deadlines

/-- The same after a run. -/
def asked (s : Service K) (k : K) : List (Deed K) → List Instant → List Instant
  | [], deadlines => deadlines
  | a :: rest, deadlines => asked (s.next a) k rest (s.askedNext k a deadlines)

/-- How often the delayed add of a key goes off in a run. -/
def timesOff (s : Service K) (k : K) : List (Deed K) → Nat
  | [] => 0
  | a :: rest => (if s.goesOff k a then 1 else 0) + timesOff (s.next a) k rest

/-- If time passes, it passes up to the next deadline at most, and every key that was due was added
before. -/
def Timely (s : Service K) : Deed K → Prop
  | .pass time => s.queue.OnTime (s.now + time)
  | _ => True

instance (s : Service K) : DecidablePred s.Timely
  | .pass time => inferInstanceAs (Decidable (s.queue.OnTime (s.now + time)))
  | .add _ | .addAfter _ _ | .addRateLimited _ | .forget _ | .expire _ _ | .deliver _ | .ask _
  | .askAgain _ | .giveUp _ | .done _ _ | .shutDown => .isTrue trivial

/-- No timer of a run is late. -/
abbrev Punctual (s : Service K) (l : List (Deed K)) : Prop := system.Throughout Timely s l

theorem asked_append (s : Service K) (k : K) (l l' : List (Deed K)) (deadlines : List Instant) :
    s.asked k (l ++ l') deadlines = (s.run l).asked k l' (s.asked k l deadlines) := by
  induction l generalizing s deadlines with
  | nil => rfl
  | cons a rest ih => exact ih _ _

/-- Where nothing stands and nothing is asked for, nothing comes to stand. -/
theorem asked_eq_nil (s : Service K) (k : K) (l : List (Deed K))
    (h : ∀ front b back, l = front ++ b :: back → (s.run front).asks? k b = none) :
    s.asked k l [] = [] := by
  induction l generalizing s with
  | nil => rfl
  | cons a rest ih =>
    have first : s.askedNext k a [] = [] := by
      have nothing : s.asks? k a = none := h [] a rest rfl
      rw [askedNext, nothing]
      exact ite_self _
    rw [asked, first]
    refine ih _ fun front b back he => ?_
    exact h (a :: front) b back (congrArg (a :: ·) he)

/-! ### Along a run -/

theorem armed_next {s : Service K} {k : K} {deadlines : List Instant}
    (h : s.queue.Armed k deadlines) (hs : s.queue.isShutDown = false) {a : Deed K}
    (ha : a ≠ .shutDown) : (s.next a).queue.Armed k (s.askedNext k a deadlines) := by
  cases a with
  | add k' => exact h.of_same (WorkQueue.delays_add _ k')
  | addAfter k' d => exact h.addAfter hs s.now k' d
  | addRateLimited k' =>
    have counted : WorkQueue.Armed { s.queue with backoff := s.queue.backoff.fail k' } k
        deadlines := h.of_same ⟨rfl, rfl, rfl⟩
    exact counted.addAfter hs s.now k' (s.queue.backoff.nextDelay k')
  | expire k' t =>
    show (s.queue.expire k' t).Armed k _
    simp only [askedNext, goesOff, decide_eq_true_eq, asks?, Option.toList_none, List.nil_append]
    exact h.expire k' t
  | deliver k' =>
    have drawn : WorkQueue.Armed { s.queue with due := s.queue.due.erase k' } k deadlines :=
      ⟨h.waiting, h.timer⟩
    exact drawn.of_same (WorkQueue.delays_add _ k')
  | ask c =>
    show (s.receive c _).queue.Armed k deadlines
    rw [queue_receive]
    exact h.of_same (WorkQueue.delays_ask _ c)
  | askAgain c =>
    show (s.receive c _).queue.Armed k deadlines
    rw [queue_receive]
    have resumed : WorkQueue.Armed { s.queue with bell := s.queue.bell.resume c } k deadlines :=
      h.of_same ⟨rfl, rfl, rfl⟩
    exact resumed.of_same (WorkQueue.delays_ask _ c)
  | done c k' => exact h.of_same (WorkQueue.delays_done _ k')
  | shutDown => exact absurd rfl ha
  | _ => exact h.of_same ⟨rfl, rfl, rfl⟩

theorem armed_run {s : Service K} {k : K} {deadlines : List Instant} {l : List (Deed K)}
    (h : s.queue.Armed k deadlines) (hs : s.queue.isShutDown = false) (hl : .shutDown ∉ l) :
    (s.run l).queue.Armed k (s.asked k l deadlines) := by
  induction l generalizing s deadlines with
  | nil => exact h
  | cons a rest ih =>
    obtain ⟨ha, hrest⟩ := not_or.mp (fun h => hl (List.mem_cons.mpr h))
    exact ih (armed_next h hs (Ne.symm ha)) ((isShutDown_next s (Ne.symm ha)).trans hs) hrest

omit [Std.TransOrd K] [Std.LawfulEqOrd K] in
/-- Whatever goes off for a key does so at the earliest deadline. -/
theorem goesOff_iff {s : Service K} {k : K} {deadlines : List Instant}
    (h : s.queue.Armed k deadlines) (a : Deed K) :
    s.goesOff k a = true ↔ ∃ t, a = .expire k t ∧ deadlines.min? = some t := by
  cases a with
  | expire k' t =>
    simp only [goesOff, decide_eq_true_eq, Deed.expire.injEq]
    rw [WorkQueue.stands_iff]
    constructor
    · rintro ⟨rfl, stands⟩
      exact ⟨t, ⟨rfl, rfl⟩, h.waiting.symm.trans stands⟩
    · rintro ⟨t', ⟨rfl, rfl⟩, least⟩
      exact ⟨rfl, h.waiting.trans least⟩
  | _ => exact ⟨fun e => (by cases e), fun ⟨_, e, _⟩ => (by cases e)⟩

/-! ### Every key that goes off is added -/

/-- A key that goes off is due once more, and it is due once less when it is added. -/
theorem count_due_next (s : Service K) (k : K) {a : Deed K} (ha : s.Allows a) :
    (if s.goesOff k a then 1 else 0) + s.queue.due.count k =
      [a].count (.deliver k) + (s.next a).queue.due.count k := by
  have kept {a : Deed K} {q : WorkQueue K} (still : s.goesOff k a = false)
      (other : a ≠ .deliver k) (due : q.due = s.queue.due) :
      (if s.goesOff k a then 1 else 0) + s.queue.due.count k =
        [a].count (.deliver k) + q.due.count k := by
    rw [still, due, List.count_singleton, beq_eq_false_iff_ne.mpr other]
  cases a with
  | addAfter k' d => exact kept rfl nofun (WorkQueue.due_addAfter s.queue s.now k' d)
  | addRateLimited k' => exact kept rfl nofun (WorkQueue.due_addAfter _ s.now k' _)
  | add k' => exact kept rfl nofun (WorkQueue.delays_add s.queue k').due
  | done c k' => exact kept rfl nofun (WorkQueue.delays_done s.queue k').due
  | ask c =>
    exact kept rfl nofun ((congrArg (·.due) (queue_receive s c _)).trans
      (WorkQueue.delays_ask s.queue c).due)
  | askAgain c =>
    exact kept rfl nofun ((congrArg (·.due) (queue_receive s c _)).trans
      (WorkQueue.delays_ask { s.queue with bell := s.queue.bell.resume c } c).due)
  | expire k' t =>
    show _ = 0 + (s.queue.expire k' t).due.count k
    simp only [goesOff, decide_eq_true_eq]
    cases stands : s.queue.stands k' t with
    | true =>
      rw [WorkQueue.expire_of_standing stands, List.count_append, List.count_singleton]
      simp only [and_true, beq_iff_eq]
      omega
    | false =>
      rw [WorkQueue.expire_of_stale stands, if_neg fun e => Bool.false_ne_true e.2]
  | deliver k' =>
    have due : k' ∈ s.queue.due := ha
    have left : (s.next (.deliver k')).queue.due = s.queue.due.erase k' :=
      (WorkQueue.delays_add _ k').due
    rw [left, List.count_erase, List.count_singleton]
    show 0 + _ = (if _ then 1 else 0) + _
    by_cases hk : k' = k
    · subst hk
      have := List.count_pos_iff.mpr due
      simp only [BEq.rfl, if_true]
      omega
    · have other : (Deed.deliver k' == Deed.deliver k) = false := by
        simpa using hk
      rw [other, beq_eq_false_iff_ne.mpr hk]
      simp
  | _ => exact kept rfl nofun rfl

theorem count_due_run {s : Service K} {l : List (Deed K)} (hl : s.Lawful l) (k : K) :
    s.timesOff k l + s.queue.due.count k = l.count (.deliver k) + (s.run l).queue.due.count k := by
  induction l generalizing s with
  | nil => rw [timesOff, List.count_nil, run, System.run]
  | cons a rest ih =>
    have first := count_due_next s k hl.1
    have later := ih hl.2
    have split : ([a] ++ rest).count (.deliver k) =
        [a].count (.deliver k) + rest.count (.deliver k) :=
      List.count_append
    rw [List.singleton_append] at split
    simp only [timesOff, run, System.run] at later ⊢
    omega

/-! ### Punctual runs -/

/-- No deadline that stands has passed. -/
def Early (s : Service K) : Prop := ∀ k t, s.queue.waiting.get? k = some t → s.now ≤ t

/-- If time passes only up to the next deadline, no delayed add is late. -/
theorem Early.next {s : Service K} (h : s.Early) {a : Deed K} (ha : s.Timely a) :
    (s.next a).Early := by
  have same {q : WorkQueue K} (hq : q.waiting = s.queue.waiting) :
      Early { s with queue := q } := fun k t stands => h k t (hq ▸ stands)
  have asked {q : WorkQueue K} (hq : q.waiting = s.queue.waiting) (c : Nat) :
      (s.receive c (q.ask c)).Early := by
    intro k t stands
    rw [queue_receive, (WorkQueue.delays_ask q c).waiting, hq] at stands
    rw [now_receive]
    exact h k t stands
  cases a with
  | pass time => exact fun k t stands => ha.le stands
  | add k => exact same (WorkQueue.delays_add s.queue k).waiting
  | addAfter k d =>
    exact fun k' t stands => (WorkQueue.waiting_addAfter stands).elim (h k' t) id
  | addRateLimited k =>
    exact fun k' t stands => (WorkQueue.waiting_addAfter stands).elim (h k' t) id
  | expire k t => exact fun k' t' stands => h k' t' (WorkQueue.waiting_expire stands)
  | deliver k => exact same (WorkQueue.delays_add { s.queue with due := _ } k).waiting
  | ask c => exact asked rfl c
  | askAgain c => exact asked (q := { s.queue with bell := s.queue.bell.resume c }) rfl c
  | done c k => exact same (WorkQueue.delays_done s.queue k).waiting
  | shutDown => exact fun k t stands => by cases stands
  | _ => exact h

theorem Early.run {s : Service K} (h : s.Early) {l : List (Deed K)} (hl : s.Punctual l) :
    (s.run l).Early :=
  hl.keeps (fun h ha => h.next ha) h

/-! ### Once, at the earliest deadline -/

/-- What stands after a run from the start. -/
theorem armed_of_open (p : Backoff.Policy) (k : K) {l : List (Deed K)} (open_ : .shutDown ∉ l) :
    ((opened p).run l).queue.Armed k ((opened p).asked k l []) :=
  armed_run (WorkQueue.armed_new p k) rfl open_

/-- A delayed add does not go off again unless it was asked for again. -/
theorem asks_between (p : Backoff.Policy) {before between : List (Deed K)} {a a' : Deed K} {k : K}
    (open_ : .shutDown ∉ before ++ a :: between) (off : ((opened p).run before).goesOff k a = true)
    (off' : ((opened p).run (before ++ a :: between)).goesOff k a' = true) :
    ∃ front b back, between = front ++ b :: back ∧
      ((opened p).run (before ++ a :: front)).asks? k b ≠ none := by
  by_contra quiet
  -- Else no deadline would stand at `a'`, and only one that stands goes off.
  have nothing : (opened p).asked k (before ++ a :: between) [] = [] := by
    rw [asked_append, asked, askedNext, if_pos off]
    refine asked_eq_nil _ k between fun front b back hb => ?_
    by_contra some_
    refine quiet ⟨front, b, back, hb, ?_⟩
    rw [run_append]
    exact some_
  obtain ⟨t, _, least⟩ := (goesOff_iff (armed_of_open p k open_) a').mp off'
  rw [nothing] at least
  cases least

/-- In a punctual run no deadline that stands has passed. -/
theorem le_of_punctual (p : Backoff.Policy) {l : List (Deed K)} (open_ : .shutDown ∉ l)
    (punctual : (opened p).Punctual l) {k : K} {t : Instant} (ht : t ∈ (opened p).asked k l []) :
    ((opened p).run l).now ≤ t := by
  have standing := armed_of_open p k open_
  obtain ⟨t', least⟩ : ∃ t', ((opened p).asked k l []).min? = some t' := by
    refine Option.ne_none_iff_exists'.mp fun none_ => ?_
    rw [List.min?_eq_none_iff.mp none_] at ht
    cases ht
  have early : ((opened p).run l).Early := Early.run (fun _ _ stands => by cases stands) punctual
  exact Nat.le_trans (early k t' (standing.waiting.trans least))
    ((List.min?_eq_some_iff.mp least).2 t ht)

/-- **A delayed add goes off once, at the earliest deadline asked for.** While the queue is
open, the earliest of the deadlines asked for a key since its delayed add last went off
stands, with a timer live for it, and no other deadline does. The add goes off with a timer
for that deadline and nothing else, as soon as the time has come, and in a punctual run no
later. Between two times that it goes off something is asked for. Each time the key is added
once. Delays that end later than the clock can show ask for nothing: the call panics, for them
and for no others, with the queue as it was. -/
theorem goes_off_once (p : Backoff.Policy) (l : List (Deed K)) (hl : (opened p).Lawful l)
    (open_ : .shutDown ∉ l) (k : K) :
    let s := (opened p).run l
    let deadlines := (opened p).asked k l []
    (s.queue.waiting.get? k = deadlines.min? ∧
        ∀ t, s.queue.waiting.get? k = some t → (k, t) ∈ s.queue.timers) ∧
      (∀ a, s.Allows a ∧ s.goesOff k a = true ↔
        ∃ t, a = .expire k t ∧ deadlines.min? = some t ∧ t ≤ s.now) ∧
      ((opened p).Punctual l → ∀ t ∈ deadlines, s.now ≤ t) ∧
      (∀ (before between after : List (Deed K)) (a a' : Deed K),
        l = before ++ a :: (between ++ a' :: after) →
        ((opened p).run before).goesOff k a = true →
        ((opened p).run (before ++ a :: between)).goesOff k a' = true →
        ∃ front b back, between = front ++ b :: back ∧
          ((opened p).run (before ++ a :: front)).asks? k b ≠ none) ∧
      (opened p).timesOff k l = l.count (.deliver k) + s.queue.due.count k ∧
      ∀ d, (s.queue.addAfter s.now k d).2 = false ↔ d.isZero = false ∧
        Instant.latest < s.now + d.toNanos ∧ s.queue.addAfter s.now k d = (s.queue, false) := by
  intro s deadlines
  have standing : s.queue.Armed k deadlines := armed_of_open p k open_
  refine ⟨⟨standing.waiting, standing.timer⟩, fun a => ⟨?_, ?_⟩,
    fun punctual t ht => le_of_punctual p open_ punctual ht, ?_, ?_,
    fun d => ⟨fun panics => ?_, fun panics => congrArg Prod.snd panics.2.2⟩⟩
  · rintro ⟨allowed, off⟩
    obtain ⟨t, rfl, least⟩ := (goesOff_iff standing a).mp off
    exact ⟨t, rfl, least, allowed.2⟩
  · rintro ⟨t, rfl, least, reached⟩
    exact ⟨⟨standing.timer t (standing.waiting.trans least), reached⟩,
      (goesOff_iff standing _).mpr ⟨t, rfl, least⟩⟩
  · rintro before between after a a' rfl off off'
    refine asks_between p (fun h => open_ ?_) off off'
    rw [← List.cons_append, ← List.append_assoc]
    exact List.mem_append_left _ h
  · have counted := count_due_run hl k
    rwa [show (opened p : Service K).queue.due.count k = 0 from rfl, Nat.add_zero] at counted
  · have refused := (WorkQueue.addAfter_snd s.queue s.now k d).symm.trans panics
    obtain ⟨hz, beyond⟩ := WorkQueue.admits_eq_false.mp refused
    exact ⟨hz, beyond, WorkQueue.addAfter_of_panic refused⟩

/-- The deadline of a second delayed add is that of a timer left over from the first. Once
the add has gone off the other timer does nothing. -/
theorem goes_off_once_leftover :
    let l : List (Deed Nat) := [.addAfter 5 (.ofSecs 10), .addAfter 5 (.ofSecs 2),
      .pass 2000000000, .expire 5 2000000000, .deliver 5, .addAfter 5 (.ofSecs 8),
      .pass 8000000000, .expire 5 10000000000, .deliver 5]
    (opened default).Lawful l ∧ .shutDown ∉ l ∧ (opened default).Punctual l ∧
      ((opened default).run l).Allows (.expire 5 10000000000) ∧
      ((opened default).run l).goesOff 5 (.expire 5 10000000000) = false ∧
      (opened default).timesOff 5 l = l.count (.deliver 5) := by
  intro l
  have lawful : (opened default).Lawful l := by decide
  have open_ : .shutDown ∉ l := by decide
  obtain ⟨_, off, _, _, once, _⟩ := goes_off_once default l lawful open_ 5
  have left : ((opened default).run l).Allows (.expire 5 10000000000) := by decide
  refine ⟨lawful, open_, by decide, left, ?_, once⟩
  refine eq_false_of_ne_true fun again => ?_
  obtain ⟨t, _, least, _⟩ := (off _).mp ⟨left, again⟩
  cases least

end Service

end PoolControl
