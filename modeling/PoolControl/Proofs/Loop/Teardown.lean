import PoolControl.Proofs.Loop.Finalizer
import PoolControl.Proofs.Loop.Lasting

/-! Workers are torn down once, and only in deletion.

Two things last as long as a worker: that it is in deletion, and, once it is, that it has lost
the loop's finalizer while others hold on to it. The first leaves the loop nothing to call but
the deletion (`lasting_deleting`), the second nothing at all (`lasting_bare`).

That the finalizer goes in deletion needs a look back from its removal. `Tears` says what an
attempt has behind it: a removal that comes after a deletion which the actuator confirmed finds
the worker that the deletion was for, in deletion and under the finalizer, because only this
attempt could have taken it off. `teardown_once` puts the two together. -/
namespace PoolControl

open Provision (finalizer)

namespace Site

variable {k : Key} {s s' : Site}

/-! ### A worker in deletion -/

/-- The worker is in deletion and has only finalizers of others. -/
structure Bare (w : Worker) : Prop where
  deleting : w.metadata.isDeleting = true
  off : w.metadata.hasFinalizer finalizer = false
  others : w.metadata.finalizers ≠ []

/-- A worker in deletion is torn down or left alone, and the finalizer is not put on. -/
theorem lasting_deleting (may : Worker → Worker → Prop) (k : Key) :
    Lasting may k (·.metadata.isDeleting = true) (fun x => ∀ k f, x ≠ .addFinalizer k f)
      (·.call = .delete) where
  deleting := id
  kept now _ follows _ := follows.isDeleting.trans now
  attends {w} key now := by
    have torn {m : Call} (hd : Provision.due w = some m) : m = .delete := by
      rw [Provision.due_of_deleting now] at hd
      split at hd
      · exact (Option.some.inj hd).symm
      · cases hd
    refine Provision.leads_of_attend key (fun x hx => ?_) (fun c _ hd => torn hd)
      fun c r x _ hx => ?_
    · cases hx with
      | consume => exact fun _ _ e => by cases e
      | hold due creates =>
        rw [torn due] at creates
        cases creates
      | announce => exact fun _ _ e => by cases e
    · cases hx with
      | record => exact fun _ _ e => by cases e
      | release => exact fun _ _ e => by cases e

/-- Once the finalizer is off there is nothing to do but to consume requests. -/
theorem lasting_bare (k : Key) :
    Lasting KeepsFinalizer k Bare (fun x => x = .clearRequest k) fun _ => False where
  deleting := Bare.deleting
  kept {old x y} now asked follows others := by
    have off : x.metadata.hasFinalizer finalizer = old.metadata.hasFinalizer finalizer := by
      rcases asked with allowed | ⟨e, rfl, rfl⟩
      · exact allowed
      · rfl
    exact ⟨follows.isDeleting.trans now.deleting,
      (follows.hasFinalizer finalizer).trans (off.trans now.off), others⟩
  attends {w} key now := by
    have idle : Provision.due w = none := by
      rw [Provision.due_of_deleting now.deleting, now.off]
      rfl
    refine Provision.leads_of_attend key (fun x hx => ?_) (fun c _ hd => ?_) fun c r x hd _ => ?_
    · cases hx with
      | consume => rfl
      | hold due | announce due => cases idle.symm.trans due
    · cases idle.symm.trans hd
    · cases idle.symm.trans hd

end Site

/-! ### Before the finalizer goes -/

/-- The last answer of the actuator. -/
def lastReply : List Note → Option (Command × Reply)
  | [] => none
  | .replied c r :: _ => some (c, r)
  | _ :: rest => lastReply rest

/-- The stored worker is in deletion and under the finalizer, and no other incarnation than
`u`. -/
def Held (stored : Option Worker) (log : List Note) (u : Worker) : Prop :=
  birth log ≤ u.metadata.resourceVersion ∧
    ∃ w, stored = some w ∧ w.metadata.isDeleting = true ∧
      w.metadata.hasFinalizer finalizer = true

/-- A change that leaves the finalizer on leaves the worker there. -/
theorem Held.modify {t : Tracker Worker} {k : Key} {log : List Note} {u old : Worker}
    (held : Held (t.get? k) log u) (found : t.get? k = some old) (hk : old.key = k)
    {f : Worker → Worker}
    (on : old.metadata.hasFinalizer finalizer = true →
      (f old).metadata.hasFinalizer finalizer = true) :
    Held ((t.modify k f).2.get? k) log u := by
  obtain ⟨born, w, stored, deleting, has⟩ := held
  obtain rfl := Option.some.inj (found.symm.trans stored)
  obtain ⟨-, outcome, -⟩ := Tracker.outcome_modify found hk f
  obtain ⟨y, left, still⟩ := outcome.has (on has)
  rw [left] at outcome ⊢
  cases outcome with
  | kept follows => exact ⟨born, y, rfl, follows.isDeleting.trans deleting, still⟩

theorem Held.delete {t : Tracker Worker} {k : Key} {log : List Note} {u old : Worker}
    (held : Held (t.get? k) log u) (found : t.get? k = some old) (hk : old.key = k)
    (now : Timestamp) : Held ((t.delete now k).2.get? k) log u := by
  obtain ⟨born, w, stored, deleting, has⟩ := held
  obtain rfl := Option.some.inj (found.symm.trans stored)
  obtain ⟨-, outcome, -⟩ := Tracker.outcome_delete found hk now
  obtain ⟨y, left, still⟩ := outcome.has has
  exact ⟨born, y, left, outcome.deleting left, still⟩

/-- What an attempt has behind it, as far as teardown goes. -/
inductive Tears (k : Key) (stored : Option Worker) (log : List Note) : AttemptState → Prop
  | outset : Tears k stored log (.going (Provision.plan k))
  | before {p : Plan} {u : Worker}
      (leads : p.LeadsTo (fun x => ∀ k f, x ≠ .removeFinalizer k f) fun c next =>
        c.worker = u ∧ Provision.due u = some c.call ∧ next = Provision.conclude c)
      (held : Provision.due u = some .delete → Held stored log u) : Tears k stored log (.going p)
  | calling {c : Command} (held : c.call = .delete → Held stored log c.worker) :
      Tears k stored log (.calling c (Provision.conclude c))
  /-- The machines are gone, and the finalizer goes next. -/
  | torn {c : Command} {data : Option Json} (last : lastReply log = some (c, .ok data))
      (held : Held stored log c.worker) :
      Tears k stored log (.going (Provision.release c.worker.key))
  /-- If the finalizer still goes, then not after a deletion. -/
  | settled {p : Plan}
      (leads : p.LeadsTo (fun x => (∃ k f, x = .removeFinalizer k f) →
        ∃ c r, lastReply log = some (c, r) ∧ c.call ≠ .delete) fun _ _ => False) :
      Tears k stored log (.going p)

namespace Tears

variable {k : Key} {stored stored' : Option Worker} {log log' : List Note} {stage : AttemptState}

/-- What happens besides the attempt, and leaves the worker held, does not matter. -/
theorem imp (h : Tears k stored log stage) (held : ∀ u, Held stored log u → Held stored' log' u)
    (last : lastReply log' = lastReply log) : Tears k stored' log' stage := by
  cases h with
  | outset => exact .outset
  | before leads hold => exact .before leads fun hd => held _ (hold hd)
  | calling hold => exact .calling fun hc => held _ (hold hc)
  | torn replied hold => exact .torn (last.trans replied) (held _ hold)
  | settled leads =>
    rw [← last] at leads
    exact .settled leads

/-- What an attempt makes of the answer to its call. -/
theorem conclude {c : Command} (held : c.call = .delete → Held stored log c.worker) (r : Reply) :
    Tears k stored (.replied c r :: log) (.going (Provision.conclude c r)) := by
  by_cases confirmed : c.call = .delete ∧ ∃ data, r = .ok data
  · obtain ⟨hc, data, rfl⟩ := confirmed
    have release : Provision.conclude c (.ok data) = Provision.release c.worker.key := if_pos hc
    rw [release]
    exact .torn rfl (held hc)
  · refine .settled ?_
    refine ((Provision.only_conclude c r).leads (Provision.callsAtMost_conclude c r)).imp
      (fun x hx removal => ⟨c, r, rfl, fun hc => confirmed ⟨hc, ?_⟩⟩) fun _ _ => id
    cases hx with
    | record =>
      obtain ⟨_, _, removal⟩ := removal
      cases removal
    | release released =>
      cases r with
      | ok data => exact ⟨data, rfl⟩
      | error e => cases released

/-- An attempt that has looked its worker up. -/
theorem attend {w : Worker} (key : w.key = k)
    (born : birth log ≤ w.metadata.resourceVersion) :
    Tears k (some w) log (.going (Provision.attend k w)) := by
  refine .before ((Provision.leads_attend key).imp (fun x hx => ?_) fun _ _ => id) fun hd => ?_
  · cases hx <;> exact fun _ _ e => by cases e
  · obtain ⟨deleting, has⟩ := Provision.delete_due_iff.mp hd
    exact ⟨born, w, rfl, deleting, has⟩

/-- A step of an attempt. -/
theorem moves {a a' : Api} {next : AttemptState} {stage' : Option AttemptState} {notes : List Note}
    (h : Tears k (a.workers.get? k) log stage) (keyed : a.workers.Keyed)
    (born : ∀ w, a.workers.get? k = some w → birth log ≤ w.metadata.resourceVersion)
    (own : ∀ x next, stage = .going (.write x next) → x.key = k)
    (hm : stage.Moves k a stage' a' notes) (left : stage' = some next) :
    Tears k (a'.workers.get? k) (notes ++ log) next := by
  cases hm with
  | finish | cut => cases left
  | look =>
    cases left
    cases h with
    | outset =>
      show Tears k _ _ (.going (Provision.seen k (a.workers.get? k)))
      cases found : a.workers.get? k with
      | none => exact .settled trivial
      | some w => exact attend (keyed k w found) (born w found)
    | before leads held => exact .before (leads _) held
    | settled leads => exact .settled (leads _)
  | clock now =>
    cases left
    cases h with
    | before leads held => exact .before (leads now) held
    | settled leads => exact .settled (leads now)
  | @write x rest =>
    cases left
    cases h with
    | before leads held =>
      refine .before (leads.2 _) fun hd => ?_
      have held := held hd
      obtain ⟨-, old, found, -⟩ := id held
      rw [Api.workers_write, own x rest rfl]
      refine held.modify found (keyed k old found) fun has => ?_
      exact Write.hasFinalizer_change (fun k' f e => absurd e (leads.1 k' f)) has
    | torn =>
      refine .settled ?_
      cases (a.write _).1 with
      | ok => trivial
      | error => trivial
    | settled leads => exact .settled (leads.2 _)
  | @lose x rest reason =>
    cases left
    cases h with
    | before leads held => exact .before (leads.2 _) held
    | torn => exact .settled trivial
    | settled leads => exact .settled (leads.2 _)
  | call =>
    cases left
    cases h with
    | before leads held =>
      obtain ⟨rfl, hd, rfl⟩ := leads
      exact .calling fun hc => held (hd.trans (congrArg some hc))
    | settled leads => exact leads.elim
  | reply r =>
    cases left
    cases h with
    | calling held => exact conclude held r

end Tears

namespace Site

variable {k : Key} {s s' : Site}

/-- **Every step keeps what attempts have behind them.** -/
theorem tears_step (reached : Reaches KeepsFinalizer opened s)
    (h : ∀ stage, s.attempts k = some stage → Tears k (s.api.workers.get? k) (s.history k) stage)
    (hs : Step KeepsFinalizer s s') :
    ∀ stage, s'.attempts k = some stage → Tears k (s'.api.workers.get? k) (s'.history k) stage := by
  have sound := sound_of_reaches reached
  intro stage under
  cases turn sound hs k with
  | idle stored same log =>
    rw [stored, log]
    exact h stage (same ▸ under)
  | @created w key free stored same log _ =>
    have history : s'.history k = .created w :: s.history k := history_cons log key
    refine (h stage (same ▸ under)).imp (fun u held => ?_) (by rw [history]; rfl)
    obtain ⟨-, w, there, -⟩ := held
    cases free.symm.trans there
  | changed found allowed workers same log =>
    rw [workers, log]
    refine (h stage (same ▸ under)).imp (fun u held => ?_) rfl
    exact held.modify found (sound.keyed k _ found) fun has => allowed.trans has
  | deleted found workers same log =>
    rw [workers, log]
    exact (h stage (same ▸ under)).imp
      (fun u held => held.delete found (sound.keyed k _ found) _) rfl
  | begun free at_ stored log =>
    obtain rfl := Option.some.inj (at_.symm.trans under)
    exact .outset
  | @moved old _ _ _ before moves api at_ log =>
    subst api
    rw [log]
    refine (h old before).moves sound.keyed (fun w found => birth_le reached found) ?_ moves
      (at_.symm.trans under)
    rintro x next rfl
    exact sound.write_key before

theorem tears_of_reaches (reached : Reaches KeepsFinalizer opened s) (k : Key) :
    ∀ stage, s.attempts k = some stage → Tears k (s.api.workers.get? k) (s.history k) stage := by
  induction reached with
  | refl => exact fun _ under => by cases under
  | tail before hs ih => exact tears_step before ih hs

/-- A finalizer that goes after a confirmed deletion is that of the worker which the deletion
was for, and with it the attempt comes to its end. -/
theorem held_of_removal (reached : Reaches KeepsFinalizer opened s)
    {next : Except ApiError Unit → Plan} {c : Command} {data : Option Json}
    (under : s.attempts k = some (.going (.write (.removeFinalizer k finalizer) next)))
    (last : lastReply (s.history k) = some (c, .ok data)) (call : c.call = .delete) :
    Held (s.api.workers.get? k) (s.history k) c.worker ∧ next (.ok ()) = .done (.ok .done) := by
  have tears := tears_of_reaches reached k _ under
  generalize hp : Plan.write (.removeFinalizer k finalizer) next = p at tears
  cases tears with
  | outset => cases hp
  | before leads =>
    subst hp
    exact absurd rfl (leads.1 _ _)
  | torn replied held =>
    obtain ⟨rfl, -⟩ := Prod.mk.inj (Option.some.inj (last.symm.trans replied))
    cases hp
    exact ⟨held, rfl⟩
  | settled leads =>
    subst hp
    obtain ⟨c', r, replied, other⟩ := leads.1 ⟨_, _, rfl⟩
    obtain ⟨rfl, -⟩ := Prod.mk.inj (Option.some.inj (last.symm.trans replied))
    exact absurd call other

/-! ### After the finalizer went -/

/-- The site after the write that takes the finalizer off. -/
def released (s : Site) (k : Key) (next : Except ApiError Unit → Plan) : Site :=
  let written := s.api.write (.removeFinalizer k finalizer)
  s.staged k (some (.going (next written.1))) written.2 s.log

theorem step_released {may : Worker → Worker → Prop} {next : Except ApiError Unit → Plan}
    (under : s.attempts k = some (.going (.write (.removeFinalizer k finalizer) next))) :
    Step may s (s.released k next) :=
  .move s under .write

/-- What `s` is like after the finalizer of `w` went, and what comes of it. -/
structure TornDown (k : Key) (w : Worker) (s : Site) : Prop where
  /-- A worker with no other finalizer is gone. -/
  gone : (∀ f ∈ w.metadata.finalizers, f = finalizer) → s.api.workers.get? k = none
  /-- Any other worker keeps the finalizers of others. -/
  stays : (∃ f ∈ w.metadata.finalizers, f ≠ finalizer) →
    ∃ w', s.api.workers.get? k = some w' ∧
      w'.metadata.finalizers = w.metadata.finalizers.filter (· != finalizer)
  /-- As long as it is there it has some of them, and is in deletion. -/
  bare : ∀ s₁ w₁, Reaches KeepsFinalizer s s₁ → (∀ u, ¬ Renews k s s₁ u) →
    s₁.api.workers.get? k = some w₁ → Bare w₁
  /-- It goes when users take the last one off. -/
  lasts : ∀ s₁ s₂ w₁, Reaches KeepsFinalizer s s₁ → Step KeepsFinalizer s₁ s₂ →
    (∀ u, ¬ Renews k s s₁ u) → s₁.api.workers.get? k = some w₁ →
    s₂.api.workers.get? k = none →
    ∃ f, s₂.api.workers = (s₁.api.workers.modify k f).2 ∧ (f w₁).metadata.finalizers = []
  /-- If the actuator is called again, then for a worker that was created since. -/
  quiet : ∀ s₁ s₂ c, Reaches KeepsFinalizer s s₁ → Step KeepsFinalizer s₁ s₂ →
    s₂.log = .called c :: s₁.log → c.worker.key = k →
    ∃ u, Renews k s s₁ u ∧
      u.metadata.resourceVersion ≤ c.worker.metadata.resourceVersion

/-- What the removal of a finalizer leaves of a worker in deletion. -/
theorem land_removeFinalizer {w : Worker} {f : String} {v : Nat}
    (deleting : w.metadata.isDeleting = true) (has : w.metadata.hasFinalizer f = true) :
    ((Write.removeFinalizer k f).land (some w, v)).1 =
      if w.metadata.finalizers.filter (· != f) = [] then none
      else some (((Write.removeFinalizer k f).change w).versioned (v + 1)) := by
  have effective : ¬ (Write.removeFinalizer k f).Idle w := fun idle => by
    have same := congrArg (fun w : Worker => w.metadata.hasFinalizer f) (of_decide_eq_true idle)
    have off := Write.hasFinalizer_removeFinalizer k f w
    cases has.symm.trans (same.symm.trans off)
  split
  · rename_i last
    rw [Write.land_ends effective ⟨deleting, last⟩]
  · rename_i others
    rw [Write.land_stays effective fun ends => others ends.2]

/-- A worker that is bare goes only when users take its last finalizer off. -/
theorem Since.lasts {s₀ : Site} (since : Since k Bare (fun x => x = .clearRequest k)
      (fun _ => False) s₀ s) (sound : s.Sound) (hs : Step KeepsFinalizer s s')
    (same : ∀ u, ¬ Renews k s₀ s u) {w : Worker} (found : s.api.workers.get? k = some w)
    (gone : s'.api.workers.get? k = none) :
    ∃ f, s'.api.workers = (s.api.workers.modify k f).2 ∧ (f w).metadata.finalizers = [] := by
  have bare : Bare w := (since.stored w found).resolve_right fun ⟨u, renewed⟩ => same u renewed
  have key : w.key = k := sound.keyed k w found
  cases turn sound hs k with
  | idle stored | begun _ _ stored => cases gone.symm.trans (stored.trans found)
  | created _ free => cases free.symm.trans found
  | @changed old f there allowed workers _ _ =>
    obtain rfl := Option.some.inj (found.symm.trans there)
    obtain ⟨-, outcome, -⟩ := Tracker.outcome_modify found key f
    rw [← workers, gone] at outcome
    cases outcome with
    | gone last => exact ⟨f, workers, last⟩
  | @deleted old now there workers _ _ =>
    obtain ⟨-, outcome, -⟩ := Tracker.outcome_delete found key now
    rw [← workers, gone] at outcome
    generalize s'.api.workers.version = v at outcome
    cases outcome with
    | gone last => exact absurd last bare.others
  | moved under moves api _ _ =>
    rw [api] at gone
    cases moves with
    | @write x next =>
      have consume : x = .clearRequest k :=
        (since.wrote under).resolve_right fun ⟨u, renewed⟩ => same u renewed
      subst consume
      obtain ⟨-, outcome, -⟩ := Api.outcome_write (w := .clearRequest k) found key
      have gone : (s.api.write (.clearRequest k)).2.workers.get?
          (Write.clearRequest k).key = none := gone
      rw [gone] at outcome
      cases outcome with
      | gone last => exact absurd last bare.others
    | _ => cases gone.symm.trans found

theorem tornDown (reached : Reaches KeepsFinalizer opened s)
    {next : Except ApiError Unit → Plan} {c : Command} {data : Option Json} {w : Worker}
    (under : s.attempts k = some (.going (.write (.removeFinalizer k finalizer) next)))
    (last : lastReply (s.history k) = some (c, .ok data)) (call : c.call = .delete)
    (found : s.api.workers.get? k = some w) (deleting : w.metadata.isDeleting = true)
    (has : w.metadata.hasFinalizer finalizer = true) : TornDown k w (s.released k next) := by
  have sound := sound_of_reaches reached
  have key : w.key = k := sound.keyed k w found
  have left : (s.released k next).api.workers.get? k =
      if w.metadata.finalizers.filter (· != finalizer) = [] then none
      else some (((Write.removeFinalizer k finalizer).change w).versioned
        (s.api.workers.version + 1)) := by
    have entry : s.api.entry k = (some w, s.api.workers.version) := congrArg (·, _) found
    calc (s.released k next).api.workers.get? k
      _ = ((Write.removeFinalizer k finalizer).land (s.api.entry k)).1 :=
        congrArg Prod.fst (Api.entry_write sound.keyed (.removeFinalizer k finalizer))
      _ = ((Write.removeFinalizer k finalizer).land (some w, s.api.workers.version)).1 := by
        rw [entry]
      _ = _ := land_removeFinalizer deleting has
  have reached' : Reaches KeepsFinalizer opened (s.released k next) :=
    reached.tail (step_released under)
  -- What is left from here on: the worker without the finalizer, and an attempt at its end.
  have start : Since k Bare (fun x => x = .clearRequest k) (fun _ => False) (s.released k next)
      (s.released k next) := by
    refine ⟨fun w' stored => .inl ?_, fun stage at_ => .inr (.inl ?_)⟩
    · rw [left] at stored
      split at stored
      · cases stored
      · rename_i others
        obtain rfl := Option.some.inj stored
        exact ⟨deleting, Write.hasFinalizer_removeFinalizer k finalizer w, others⟩
    · obtain ⟨ok, -, -⟩ := Api.outcome_write (w := .removeFinalizer k finalizer) found key
      have ended := (held_of_removal reached under last call).2
      have stage_ : (s.released k next).attempts k =
          some (.going (next (s.api.write (.removeFinalizer k finalizer)).1)) :=
        Function.update_self ..
      rw [ok, ended] at stage_
      obtain rfl := Option.some.inj (stage_.symm.trans at_)
      exact .going trivial
  have since {s₁ : Site} (run : Reaches KeepsFinalizer (s.released k next) s₁) :=
    start.run (lasting_bare k) reached' run
  refine ⟨fun alone => ?_, fun others => ?_, fun s₁ w₁ run same stored => ?_,
    fun s₁ s₂ w₁ run hs same => ?_, fun s₁ s₂ c run hs log here => ?_⟩
  · rw [left, if_pos]
    refine List.filter_eq_nil_iff.mpr fun f mem => ?_
    rw [alone f mem, bne_self_eq_false]
    exact Bool.false_ne_true
  · obtain ⟨f, mem, other⟩ := others
    refine ⟨_, left.trans (if_neg fun none_ => ?_), rfl⟩
    exact List.filter_eq_nil_iff.mp none_ f mem (bne_iff_ne.mpr other)
  · exact ((since run).stored w₁ stored).resolve_right fun ⟨u, renewed⟩ => same u renewed
  · exact (since run).lasts (sound_of_reaches (reached'.trans run)) hs same
  · exact ((since run).called (sound_of_reaches (reached'.trans run)) hs log here).resolve_left id

/-- **A worker is torn down once, and only in deletion.** While users leave the loop's finalizer
alone, and whatever fails, take a worker that is in deletion when an attempt on it starts: from
then on the actuator is called for it only to delete, and the finalizer is not put on, unless
the worker under the key is one that was created since. And take an attempt that is about to
take the finalizer off after the actuator has confirmed a deletion: the worker is still the one
that the deletion was for, the write succeeds, and `TornDown` says what comes of it. -/
theorem teardown_once (reached : Reaches KeepsFinalizer opened s) (k : Key) :
    (∀ w, s.api.workers.get? k = some w → w.metadata.isDeleting = true →
      (∀ stage, s.attempts k = some stage → stage = .going (Provision.plan k)) →
      ∀ s₁, Reaches KeepsFinalizer s s₁ →
        (∀ s₂ c, Step KeepsFinalizer s₁ s₂ → s₂.log = .called c :: s₁.log → c.worker.key = k →
          c.call = .delete ∨ ∃ u, Renews k s s₁ u ∧
            u.metadata.resourceVersion ≤ c.worker.metadata.resourceVersion) ∧
        ∀ k' f next, s₁.attempts k = some (.going (.write (.addFinalizer k' f) next)) →
          ∃ u, Renews k s s₁ u) ∧
    ∀ next c data,
      s.attempts k = some (.going (.write (.removeFinalizer k finalizer) next)) →
      lastReply (s.history k) = some (c, .ok data) → c.call = .delete →
      ∃ w, s.api.workers.get? k = some w ∧ w.metadata.isDeleting = true ∧
        Concerns c (s.history k) ∧
        (s.api.write (.removeFinalizer k finalizer)).1 = .ok () ∧
        Step KeepsFinalizer s (s.released k next) ∧ TornDown k w (s.released k next) := by
  have sound := sound_of_reaches reached
  refine ⟨fun w found deleting fresh s₁ run => ?_, fun next c data under last call => ?_⟩
  · have start : Since k (·.metadata.isDeleting = true) (fun x => ∀ k f, x ≠ .addFinalizer k f)
        (·.call = .delete) s s := by
      refine ⟨fun w' found' => .inl ?_, fun stage under => .inl (fresh stage under)⟩
      obtain rfl := Option.some.inj (found.symm.trans found')
      exact deleting
    have since := start.run (lasting_deleting KeepsFinalizer k) reached run
    refine ⟨fun s₂ c hs log key => since.called (sound_of_reaches (reached.trans run)) hs log key,
      fun k' f next under => (since.wrote under).resolve_left fun kept => kept k' f rfl⟩
  · obtain ⟨⟨born, w, found, deleting, has⟩, -⟩ := held_of_removal reached under last call
    obtain ⟨ok, -, -⟩ :=
      Api.outcome_write (w := .removeFinalizer k finalizer) found (sound.keyed k w found)
    exact ⟨w, found, deleting, born, ok, step_released under,
      tornDown reached under last call found deleting has⟩

/-- A worker that someone else holds on to as well: it was reconciled, then deleted, then torn
down, and it stays with the finalizer that is not the loop's. -/
theorem teardown_once_held :
    ∃ (s s₁ s₂ s₃ : Site) (w : Worker) (c : Command) (next : Except ApiError Unit → Plan),
      Reaches KeepsFinalizer opened s ∧ s.api.workers.get? ⟨"tenant", "pool"⟩ = some w ∧
      w.metadata.isDeleting = true ∧ w.metadata.finalizers = ["held", finalizer] ∧
      s.attempts ⟨"tenant", "pool"⟩ = none ∧
      Reaches KeepsFinalizer s s₁ ∧ Step KeepsFinalizer s₁ s₂ ∧ s₂.log = .called c :: s₁.log ∧
      (c.call = .delete ∨ ∃ u, Renews ⟨"tenant", "pool"⟩ s s₁ u ∧
        u.metadata.resourceVersion ≤ c.worker.metadata.resourceVersion) ∧
      Reaches KeepsFinalizer s s₃ ∧
      s₃.attempts ⟨"tenant", "pool"⟩ =
        some (.going (.write (.removeFinalizer ⟨"tenant", "pool"⟩ finalizer) next)) ∧
      lastReply (s₃.history ⟨"tenant", "pool"⟩) = some (c, .ok none) ∧
      ∃ w', (s₃.released ⟨"tenant", "pool"⟩ next).api.workers.get? ⟨"tenant", "pool"⟩ = some w' ∧
        w'.metadata.finalizers = ["held"] := by
  have start : Reaches KeepsFinalizer opened _ :=
    reaches_founded
      (Trial.Fixture.withFinalizer "held" (Trial.Fixture.worker "tenant" "pool" default))
  obtain ⟨before, call⟩ : Reaches KeepsFinalizer _ _ ∧ Step KeepsFinalizer _ _ :=
    calls_of_advance (k := ⟨"tenant", "pool"⟩) start rfl rfl
  have rest := rests_of_advance (before.tail call) (.ok none) rfl
  have deleted := rest.tail (.delete _ default ⟨"tenant", "pool"⟩)
  have here {s : Site} (_ : Reaches KeepsFinalizer opened s) : Reaches KeepsFinalizer s s := .refl
  obtain ⟨run, call⟩ : Reaches KeepsFinalizer _ _ ∧ Step KeepsFinalizer _ _ :=
    calls_of_advance (k := ⟨"tenant", "pool"⟩) (here deleted) rfl rfl
  have answered := (run.tail call).tail (staged_move (.reply (.ok none)))
  refine ⟨_, _, _, _, _, _, _, deleted, rfl, rfl, rfl, rfl, run, call, rfl, ?_, answered, rfl, rfl,
    ?_⟩
  · exact ((teardown_once deleted ⟨"tenant", "pool"⟩).1 _ rfl rfl (fun _ under => by cases under) _
      run).1 _ _ call rfl rfl
  · obtain ⟨w, found, -, -, -, -, after⟩ :=
      (teardown_once (deleted.trans answered) ⟨"tenant", "pool"⟩).2 _ _ _ rfl rfl rfl
    obtain rfl := Option.some.inj (found.symm.trans rfl)
    exact after.stays ⟨"held", by decide, by decide⟩

end Site

end PoolControl
