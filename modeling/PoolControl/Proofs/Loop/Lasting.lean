import PoolControl.Proofs.Loop.Turn

/-! What lasts as long as a worker.

Some of what holds of a worker holds until its end: it stays in deletion, say, and one that
has lost the loop's finalizer in deletion does not get it back. What an attempt may do to the
worker is then settled for good. `Lasting` says that a property is kept by whatever can happen
to a worker but its end, and that an attempt which has seen the worker makes only certain
writes and calls.

`Since` follows such a property along a run, up to the moment when another worker is created
under the key (`Renews`); from then on all that matters is that attempts speak of the new
worker. `Since.run` is the induction over the run, and `Since.called` and `Since.wrote` say
what comes of it. -/
namespace PoolControl

/-! ### What an attempt may still do -/

/-- An attempt only makes writes of `W`, and only calls of `Q`, of which one at most is
left. -/
inductive AttemptState.Leads (W : Write → Prop) (Q : Command → Prop) : AttemptState → Prop
  | going {p : Plan}
      (h : p.LeadsTo W fun c next => Q c ∧ ∀ r, (next r).LeadsTo W fun _ _ => False) :
      Leads W Q (.going p)
  | calling {c : Command} {next : Reply → Plan}
      (h : ∀ r, (next r).LeadsTo W fun _ _ => False) : Leads W Q (.calling c next)

theorem AttemptState.Leads.moves {W : Write → Prop} {Q : Command → Prop} {k : Key} {a a' : Api}
    {stage next : AttemptState} {stage' : Option AttemptState} {notes : List Note}
    (h : stage.Leads W Q)
    (hm : stage.Moves k a stage' a' notes) (left : stage' = some next) : next.Leads W Q := by
  cases hm with
  | look =>
    cases left
    obtain ⟨hp⟩ := h
    exact .going (hp a.caches)
  | clock now =>
    cases left
    obtain ⟨hp⟩ := h
    exact .going (hp now)
  | write =>
    cases left
    obtain ⟨hp⟩ := h
    exact .going (hp.2 _)
  | lose reason =>
    cases left
    obtain ⟨hp⟩ := h
    exact .going (hp.2 _)
  | call =>
    cases left
    obtain ⟨hp⟩ := h
    exact .calling hp.2
  | reply r =>
    cases left
    obtain _ | hr := h
    exact .going ((hr r).imp (fun _ => id) fun _ _ => False.elim)
  | finish | cut => cases left

/-- An attempt speaks of `u`, or of what became of it: it makes no call for an older worker. -/
def AttemptState.Speaks (u : Worker) : AttemptState → Prop :=
  Leads (fun _ => True) fun c =>
    u.metadata.resourceVersion ≤ c.worker.metadata.resourceVersion

/-- What an attempt that has seen its worker may still do. -/
theorem Provision.leads_of_attend {W : Write → Prop} {Q : Command → Prop} {k : Key} {w : Worker}
    (hk : w.key = k) (before : ∀ x, Prepares k w x → W x)
    (calls : ∀ c, c.worker = w → due w = some c.call → Q c)
    (after : ∀ c r x, due w = some c.call → Settles c r x → W x) :
    (AttemptState.going (attend k w)).Leads W Q := by
  refine .going ((leads_attend hk).imp before ?_)
  rintro c next ⟨hw, hd, rfl⟩
  refine ⟨calls c hw hd, fun r => ?_⟩
  exact ((only_conclude c r).leads (callsAtMost_conclude c r)).imp (fun x => after c r x hd)
    fun _ _ => id

namespace Site

variable {may : Worker → Worker → Prop} {k : Key} {s s' s'' : Site} {u : Worker}

/-! ### Renewal -/

/-- On the way from `s` to `s'` the worker `u` was created under `k`. -/
def Renews (k : Key) (s s' : Site) (u : Worker) : Prop :=
  u.key = k ∧ ∃ notes, s'.log = notes ++ s.log ∧ .created u ∈ notes

theorem Renews.step (h : Renews k s s' u) (hs : Step may s' s'') : Renews k s s'' u := by
  obtain ⟨key, notes, log, mem⟩ := h
  obtain ⟨more, hm⟩ := hs.log_suffix
  exact ⟨key, more ++ notes, by rw [← hm, log, List.append_assoc], List.mem_append_right _ mem⟩

theorem renews_created (run : Reaches may s s') (key : u.key = k)
    (log : s''.log = .created u :: s'.log) : Renews k s s'' u := by
  obtain ⟨notes, hn⟩ := log_suffix run
  exact ⟨key, .created u :: notes, by rw [log, ← hn]; rfl, List.mem_cons_self⟩

/-- After a renewal the last worker created is one of the new ones. -/
theorem birth_of_created {notes : List Note} (h : .created u ∈ notes) (key : u.key = k)
    (log : List Note) :
    ∃ v : Worker, v.key = k ∧ .created v ∈ notes ∧
      birth ((notes ++ log).filter (·.key = k)) = v.metadata.resourceVersion := by
  induction notes with
  | nil => cases h
  | cons n rest ih =>
    by_cases hn : n.key = k
    · have filtered : (n :: rest ++ log).filter (·.key = k) =
          n :: (rest ++ log).filter (·.key = k) :=
        List.filter_cons_of_pos (decide_eq_true hn)
      rw [filtered]
      cases n with
      | created v => exact ⟨v, hn, List.mem_cons_self, rfl⟩
      | _ =>
        obtain ⟨v, hv, mem, born⟩ := ih ((List.mem_cons.mp h).resolve_left (by simp))
        exact ⟨v, hv, List.mem_cons_of_mem _ mem, born⟩
    · have filtered : (n :: rest ++ log).filter (·.key = k) =
          (rest ++ log).filter (·.key = k) :=
        List.filter_cons_of_neg (by simpa using hn)
      have later : Note.created u ∈ rest :=
        (List.mem_cons.mp h).resolve_left fun here => hn (here ▸ key)
      obtain ⟨v, hv, mem, born⟩ := ih later
      exact ⟨v, hv, List.mem_cons_of_mem _ mem, filtered ▸ born⟩

/-- After a renewal the stored worker is one of the new ones. -/
theorem Renews.le {w : Worker} (h : Renews k s s' u) (reached : Reaches may opened s')
    (found : s'.api.workers.get? k = some w) :
    ∃ v, Renews k s s' v ∧ v.metadata.resourceVersion ≤ w.metadata.resourceVersion := by
  obtain ⟨key, notes, log, mem⟩ := h
  obtain ⟨v, hv, there, born⟩ := birth_of_created mem key s.log
  have older := birth_le reached found
  rw [history, log, born] at older
  exact ⟨v, ⟨hv, notes, log, there⟩, older⟩

/-! ### What lasts as long as a worker -/

/-- While `L` holds of the worker under `k`, attempts that have seen it only make writes of `W`
and calls of `Q`, and nothing that can happen to it but its end takes `L` away. -/
structure Lasting (may : Worker → Worker → Prop) (k : Key) (L : Worker → Prop)
    (W : Write → Prop) (Q : Command → Prop) : Prop where
  deleting : ∀ {w}, L w → w.metadata.isDeleting = true
  kept : ∀ {old x y : Worker}, L old → (may old x ∨ ∃ e, W e ∧ x = e.change old) →
    Tracker.Follows old x y → y.metadata.finalizers ≠ [] → L y
  attends : ∀ {w}, w.key = k → L w → (AttemptState.going (Provision.attend k w)).Leads W Q

variable {L : Worker → Prop} {W : Write → Prop} {Q : Command → Prop}

theorem Lasting.modify (lasting : Lasting may k L W Q) {t : Tracker Worker} {old y : Worker}
    (found : t.get? k = some old) (hk : old.key = k) {f : Worker → Worker} (now : L old)
    (asked : may old (f old) ∨ ∃ e, W e ∧ f old = e.change old)
    (left : (t.modify k f).2.get? k = some y) : L y := by
  rcases Tracker.left_modify found hk left with ⟨-, rfl⟩ | ⟨rfl, stays⟩
  · exact now
  · have follows : Tracker.Follows old (f old) _ := Tracker.follows_numbered (t.version + 1) (f old)
    exact lasting.kept now asked follows (stays (follows.isDeleting.trans (lasting.deleting now)))

theorem Lasting.delete (lasting : Lasting may k L W Q) {t : Tracker Worker} {old y : Worker}
    (found : t.get? k = some old) (hk : old.key = k) {now : Timestamp} (holds : L old)
    (left : (t.delete now k).2.get? k = some y) : L y := by
  rcases Tracker.left_delete found hk left with rfl | ⟨-, present⟩
  · exact holds
  · rw [lasting.deleting holds] at present
    cases present

/-- What is left of `L` on the way from `s` to `s'`: all of it, or the worker under `k` is
another one. An attempt may not have looked yet. -/
structure Since (k : Key) (L : Worker → Prop) (W : Write → Prop) (Q : Command → Prop)
    (s s' : Site) : Prop where
  stored : ∀ w, s'.api.workers.get? k = some w → L w ∨ ∃ u, Renews k s s' u
  attempt : ∀ stage, s'.attempts k = some stage →
    stage = .going (Provision.plan k) ∨ stage.Leads W Q ∨
      ∃ u, Renews k s s' u ∧ stage.Speaks u

/-- A step of an attempt. -/
theorem Since.moved (since : Since k L W Q s s') (lasting : Lasting may k L W Q)
    (reached : Reaches may opened s') {stage next : AttemptState} {stage' : Option AttemptState}
    {a : Api}
    {notes : List Note} (under : s'.attempts k = some stage)
    (moves : stage.Moves k s'.api stage' a notes) (left : stage' = some next) :
    next.Leads W Q ∨ ∃ u, Renews k s s' u ∧ next.Speaks u := by
  rcases since.attempt stage under with rfl | leads | ⟨u, renewed, leads⟩
  · -- The attempt looks its worker up: the old one, or one that was created since.
    cases moves with
    | look =>
      cases left
      show (AttemptState.going (Provision.seen k (s'.api.workers.get? k))).Leads W Q ∨ ∃ u,
        Renews k s s' u ∧ (AttemptState.going (Provision.seen k (s'.api.workers.get? k))).Speaks u
      cases found : s'.api.workers.get? k with
      | none => exact .inl (.going trivial)
      | some w =>
        have key : w.key = k := (sound_of_reaches reached).keyed k w found
        rcases since.stored w found with now | ⟨u, renewed⟩
        · exact .inl (lasting.attends key now)
        · obtain ⟨v, hv, older⟩ := renewed.le reached found
          refine .inr ⟨v, hv, Provision.leads_of_attend key (fun _ _ => trivial) ?_
            fun _ _ _ _ _ => trivial⟩
          rintro c rfl -
          exact older
    | cut => cases left
  · exact .inl (leads.moves moves left)
  · exact .inr ⟨u, renewed, leads.moves moves left⟩

/-- What an attempt leaves of a worker. -/
theorem Since.written (since : Since k L W Q s s') (lasting : Lasting may k L W Q)
    (sound : s'.Sound) {stage : AttemptState} {stage' : Option AttemptState} {a : Api}
    {notes : List Note}
    (under : s'.attempts k = some stage) (moves : stage.Moves k s'.api stage' a notes) {w : Worker}
    (left : a.workers.get? k = some w) : L w ∨ ∃ u, Renews k s s' u := by
  cases moves with
  | @write x next =>
    rcases since.attempt _ under with outset | leads | ⟨u, renewed, -⟩
    · cases outset
    · obtain ⟨hx, -⟩ := leads
      have key : x.key = k := sound.write_key under
      rw [Api.workers_write, key] at left
      obtain ⟨old, found⟩ := Tracker.found_of_modify left
      refine (since.stored old found).imp_left fun now => ?_
      exact lasting.modify found (sound.keyed k old found) now (.inr ⟨x, hx, rfl⟩) left
    · exact .inr ⟨u, renewed⟩
  | _ => exact since.stored w left

theorem Since.step (since : Since k L W Q s s') (lasting : Lasting may k L W Q)
    (reached : Reaches may opened s') (run : Reaches may s s') (hs : Step may s' s'') :
    Since k L W Q s s'' := by
  have sound := sound_of_reaches reached
  have renewed {P : Prop} : P ∨ (∃ u, Renews k s s' u) → P ∨ ∃ u, Renews k s s'' u :=
    Or.imp_right fun ⟨u, h⟩ => ⟨u, h.step hs⟩
  have attempt (same : s''.attempts k = s'.attempts k) : ∀ stage, s''.attempts k = some stage →
      stage = .going (Provision.plan k) ∨ stage.Leads W Q ∨
        ∃ u, Renews k s s'' u ∧ stage.Speaks u := fun stage under =>
    (since.attempt stage (same ▸ under)).imp_right
      (Or.imp_right fun ⟨u, h, leads⟩ => ⟨u, h.step hs, leads⟩)
  cases turn sound hs k with
  | idle stored same _ =>
    exact ⟨fun w found => renewed (since.stored w (stored ▸ found)), attempt same⟩
  | created key free stored same log _ =>
    refine ⟨fun w found => .inr ⟨w, ?_⟩, attempt same⟩
    obtain rfl := Option.some.inj (stored.symm.trans found)
    exact renews_created run key log
  | @changed old f found allowed workers same _ =>
    refine ⟨fun w left => renewed ((since.stored old found).imp_left fun now => ?_), attempt same⟩
    rw [workers] at left
    exact lasting.modify found (sound.keyed k old found) now (.inl allowed) left
  | @deleted old now found workers same _ =>
    refine ⟨fun w left => renewed ((since.stored old found).imp_left fun now => ?_), attempt same⟩
    rw [workers] at left
    exact lasting.delete found (sound.keyed k old found) now left
  | begun free under stored _ =>
    refine ⟨fun w found => renewed (since.stored w (stored ▸ found)), fun stage at_ => .inl ?_⟩
    exact (Option.some.inj (under.symm.trans at_)).symm
  | moved under moves api at_ _ =>
    subst api
    refine ⟨fun w left => renewed (since.written lasting sound under moves left),
      fun stage here => .inr ?_⟩
    exact (since.moved lasting reached under moves (at_.symm.trans here)).imp_right
      fun ⟨u, h, leads⟩ => ⟨u, h.step hs, leads⟩

theorem Since.run (start : Since k L W Q s s) (lasting : Lasting may k L W Q)
    (reached : Reaches may opened s) (run : Reaches may s s') : Since k L W Q s s' := by
  induction run with
  | refl => exact start
  | tail before hs ih => exact ih.step lasting (reached.trans before) before hs

/-- A call is one of `Q`, or for a worker that was created since. -/
theorem Since.called (since : Since k L W Q s s') (sound : s'.Sound) (hs : Step may s' s'')
    {c : Command} (log : s''.log = .called c :: s'.log) (key : c.worker.key = k) :
    Q c ∨ ∃ u, Renews k s s' u ∧
      u.metadata.resourceVersion ≤ c.worker.metadata.resourceVersion := by
  obtain ⟨next, under⟩ := (turn sound hs k).of_called log key
  rcases since.attempt _ under with outset | ⟨⟨hc, -⟩⟩ | ⟨u, renewed, ⟨⟨older, -⟩⟩⟩
  · cases outset
  · exact .inl hc
  · exact .inr ⟨u, renewed, older⟩

/-- A write is one of `W`, or the worker is another one. -/
theorem Since.wrote (since : Since k L W Q s s') {x : Write}
    {next : Except ApiError Unit → Plan}
    (under : s'.attempts k = some (.going (.write x next))) : W x ∨ ∃ u, Renews k s s' u := by
  rcases since.attempt _ under with outset | ⟨⟨hx, -⟩⟩ | ⟨u, renewed, -⟩
  · cases outset
  · exact .inl hx
  · exact .inr ⟨u, renewed⟩

end Site

end PoolControl
