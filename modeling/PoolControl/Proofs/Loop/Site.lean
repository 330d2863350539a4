import Mathlib.Logic.Relation
import Mathlib.Logic.Function.Basic
import PoolControl.Proofs.Api.Tracker
import PoolControl.Proofs.Loop.Protocol

/-! The provisioning loop at work.

A `Site` is an API with the attempts under way on its workers, at most one on each key, and a
log, which has the workers created, the calls and their answers, the writes lost and the attempts
cut off. In a step the users create, change or delete a worker, something else changes in the API,
an attempt begins on a key, or an attempt moves on: it looks at the API's own stores, reads the
clock, writes, calls the actuator or gets its answer. Any write may fail because the API cannot be
reached, any answer may come from the actuator, and an attempt may be cut off anywhere. Steps of
users and of attempts on other keys come between any two steps of an attempt. What users may
change is a parameter.

To argue about one worker it is enough to look at its `WorkerView`: what is stored under its key,
how far the attempt on it has got in the protocol, and its part of the log. `simulate` says
that whatever happens at the site, each view takes a step of `WorkerView.Step`, which has one case
for everything that can happen to a worker. -/
namespace PoolControl

/-- Where an attempt under way stands. -/
inductive AttemptState
  | going (p : Plan)
  | calling (c : Command) (next : Reply → Plan)

/-- An entry of the log. -/
inductive Note
  | created (w : Worker)
  | called (c : Command)
  | replied (c : Command) (r : Reply)
  /-- A write failed because the API could not be reached. -/
  | lost (k : Key)
  /-- An attempt was cut off. -/
  | cut (k : Key)

/-- The key of the worker that an entry is about. -/
def Note.key : Note → Key
  | created w => w.key
  | called c => c.worker.key
  | replied c _ => c.worker.key
  | lost k => k
  | cut k => k

/-! ### Incarnations -/

/-- The resource version that the last worker of a key was created with. The log has the
newest entry first. -/
def birth : List Note → Nat
  | [] => 0
  | .created w :: _ => w.metadata.resourceVersion
  | _ :: rest => birth rest

/-- Whether a call is made for the last worker created, and not for one before it. -/
def Concerns (c : Command) (log : List Note) : Prop :=
  birth log ≤ c.worker.metadata.resourceVersion

instance (c : Command) (log : List Note) : Decidable (Concerns c log) :=
  inferInstanceAs (Decidable (_ ≤ _))

/-! ### Steps -/

/-- The next step of an attempt on `k`, with what it leaves of the attempt, the API after it
and what it adds to the log. -/
inductive AttemptState.Moves (k : Key) (a : Api) :
    AttemptState → Option AttemptState → Api → List Note → Prop
  | look {next} : Moves k a (.going (.look next)) (some (.going (next a.caches))) a []
  | clock {next} (now : Timestamp) :
      Moves k a (.going (.clock next)) (some (.going (next now))) a []
  | write {w next} :
      Moves k a (.going (.write w next)) (some (.going (next (a.write w).1))) (a.write w).2 []
  | lose {w next} (reason : String) :
      Moves k a (.going (.write w next)) (some (.going (next (.error (.unavailable reason))))) a
        [.lost k]
  | call {c next} : Moves k a (.going (.actuate c next)) (some (.calling c next)) a [.called c]
  | reply {c next} (r : Reply) :
      Moves k a (.calling c next) (some (.going (next r))) a [.replied c r]
  | finish {r} : Moves k a (.going (.done r)) none a []
  | cut {stage} : Moves k a stage none a [.cut k]

structure Site where
  api : Api
  attempts : Key → Option AttemptState
  log : List Note

namespace Site

/-- An empty API and no attempts. -/
def opened : Site := ⟨.empty, fun _ => none, []⟩

/-- What the log keeps of a creation. -/
def noted : Except ApiError Worker → List Note
  | .ok w => [.created w]
  | .error _ => []

/-- What can happen next, if users make of a worker only what `may` allows. -/
inductive Step (may : Worker → Worker → Prop) : Site → Site → Prop
  | create (s : Site) (now : Timestamp) (x : Worker) :
      Step may s
        { s with
          api := { s.api with workers := (s.api.workers.create now x).2 }
          log := noted (s.api.workers.create now x).1 ++ s.log }
  | change (s : Site) (k : Key) (f : Worker → Worker)
      (allowed : ∀ old, s.api.workers.get? k = some old → may old (f old)) :
      Step may s { s with api := { s.api with workers := (s.api.workers.modify k f).2 } }
  | delete (s : Site) (now : Timestamp) (k : Key) :
      Step may s { s with api := { s.api with workers := (s.api.workers.delete now k).2 } }
  /-- Something changes that is no worker, such as a cluster. -/
  | elsewhere (s : Site) (a : Api) (store : a.workers.store = s.api.workers.store)
      (version : a.workers.version = s.api.workers.version) : Step may s { s with api := a }
  | begin (s : Site) (k : Key) (free : s.attempts k = none) :
      Step may s
        { s with attempts := Function.update s.attempts k (some (.going (Provision.plan k))) }
  | move (s : Site) {k : Key} {stage : AttemptState} {stage' : Option AttemptState} {a : Api}
      {notes : List Note}
      (under : s.attempts k = some stage) (moves : stage.Moves k s.api stage' a notes) :
      Step may s ⟨a, Function.update s.attempts k stage', notes ++ s.log⟩

/-- The part of the log about one key. -/
def history (s : Site) (k : Key) : List Note := s.log.filter (·.key = k)

end Site

/-! ### The protocol under way -/

/-- An attempt under way keeps to the protocol. -/
inductive AttemptState.Obeys (k : Key) : Standing → AttemptState → Prop
  | going {a p} (h : Plan.Obeys k a p) : Obeys k a (.going p)
  | calling {c next} (key : c.worker.key = k)
      (h : ∀ r, Plan.Obeys k (.answered c r false false) (next r)) :
      Obeys k (.calling c) (.calling c next)

theorem Standing.Writes.key {k : Key} {a : Standing} {w : Write} (h : a.Writes k w) :
    w.key = k := by
  cases a <;> cases w <;> first | exact h.elim | exact h | exact h.1

theorem Standing.Calls.key {k : Key} {a : Standing} {c : Command} (h : a.Calls k c) :
    c.worker.key = k := by
  cases a with
  | about w held touched =>
    rw [h.1]
    exact h.2.1
  | _ => exact h.elim

/-- How far the attempt on a key has got, if there is one and it keeps to the protocol. -/
def Site.Stands (s : Site) (k : Key) (a : Option Standing) : Prop :=
  Option.Rel (AttemptState.Obeys k) a (s.attempts k)

/-! ### Views of one worker -/

/-- What a site shows of one key. -/
structure WorkerView where
  stored : Option Worker
  version : Nat
  standing : Option Standing
  log : List Note

/-- What can happen to one key. -/
inductive WorkerView.Step (may : Worker → Worker → Prop) (k : Key) : WorkerView → WorkerView → Prop
  | pass {s v} (later : s.version ≤ v) : Step may k s { s with version := v }
  | create {s w} (key : w.key = k) (numbered : w.metadata.resourceVersion = s.version + 1)
      (free : s.stored = none) :
      Step may k s
        { s with stored := some w, version := s.version + 1, log := .created w :: s.log }
  | change {s old x stored v} (found : s.stored = some old) (allowed : may old x)
      (outcome : Tracker.Outcome old x s.version stored v) :
      Step may k s { s with stored, version := v }
  | delete {s now old stored v} (found : s.stored = some old)
      (outcome : Tracker.Removal now old s.version stored v) :
      Step may k s { s with stored, version := v }
  | begin {s} (free : s.standing = none) : Step may k s { s with standing := some .outset }
  | look {s a} (at_ : s.standing = some a) :
      Step may k s { s with standing := some (a.saw s.stored) }
  | write {s a w old stored v} (at_ : s.standing = some a) (allowed : a.Writes k w)
      (found : s.stored = some old)
      (outcome : Tracker.Outcome old (w.change old) s.version stored v) :
      Step may k s { s with stored, version := v, standing := some (a.wrote w) }
  | miss {s a} (at_ : s.standing = some a) (missing : s.stored = none) :
      Step may k s { s with standing := some .ended }
  | lose {s a} (at_ : s.standing = some a) :
      Step may k s { s with standing := some .ended, log := .lost k :: s.log }
  | call {s a c} (at_ : s.standing = some a) (allowed : a.Calls k c) :
      Step may k s { s with standing := some (.calling c), log := .called c :: s.log }
  | reply {s c} (at_ : s.standing = some (.calling c)) (r : Reply) :
      Step may k s
        { s with standing := some (.answered c r false false), log := .replied c r :: s.log }
  | finish {s a} (at_ : s.standing = some a) (ends : a.Ends) :
      Step may k s { s with standing := none }
  | cut {s} : Step may k s { s with standing := none, log := .cut k :: s.log }

namespace WorkerView

/-- A call that is logged was made, as the protocol allows. -/
theorem Step.of_called {may : Worker → Worker → Prop} {k : Key} {s s' : WorkerView} {c : Command}
    (hs : Step may k s s') (called : s'.log = .called c :: s.log) :
    ∃ a, s.standing = some a ∧ a.Calls k c := by
  cases hs with
  | call at_ allowed =>
    obtain rfl : _ = c := Note.called.inj (List.cons.inj called).1
    exact ⟨_, at_, allowed⟩
  | create | lose | reply | cut => cases (List.cons.inj called).1
  | _ => exact absurd called.symm (List.cons_ne_self _ _)

/-- Resource versions are in order: that of the stored worker is not below the one it was
created with, and none is ahead of the tracker. -/
structure Dated (s : WorkerView) : Prop where
  born : birth s.log ≤ s.version
  stored : ∀ w, s.stored = some w →
    birth s.log ≤ w.metadata.resourceVersion ∧ w.metadata.resourceVersion ≤ s.version

theorem dated_opened (v : Nat) : Dated ⟨none, v, none, []⟩ := by
  refine ⟨Nat.zero_le v, fun w hw => ?_⟩
  cases hw

theorem Dated.outcome {s : WorkerView} (h : s.Dated) {old x : Worker} {stored : Option Worker}
    {v : Nat}
    (found : s.stored = some old) (outcome : Tracker.Outcome old x s.version stored v)
    (standing : Option Standing) : Dated ⟨stored, v, standing, s.log⟩ := by
  obtain ⟨born, version⟩ := h.stored old found
  refine ⟨Nat.le_trans h.born outcome.later, fun w hw => ?_⟩
  cases outcome with
  | kept follows later dated =>
    obtain rfl := Option.some.inj hw
    obtain ⟨above, below⟩ := dated version
    exact ⟨Nat.le_trans born above, below⟩
  | gone => cases hw

theorem Dated.removal {s : WorkerView} (h : s.Dated) {now : Timestamp} {old : Worker}
    {stored : Option Worker} {v : Nat} (found : s.stored = some old)
    (outcome : Tracker.Removal now old s.version stored v) :
    Dated { s with stored, version := v } := by
  have dated := h.stored old found
  refine ⟨Nat.le_trans h.born outcome.later, fun w hw => ?_⟩
  cases outcome with
  | gone => cases hw
  | kept =>
    obtain rfl := Option.some.inj hw
    exact dated
  | marked =>
    obtain rfl := Option.some.inj hw
    exact ⟨Nat.le_succ_of_le h.born, Nat.le_refl _⟩

theorem Dated.step {may : Worker → Worker → Prop} {k : Key} {s s' : WorkerView} (h : s.Dated)
    (hs : Step may k s s') : s'.Dated := by
  cases hs with
  | pass later =>
    refine ⟨Nat.le_trans h.born later, fun w hw => ?_⟩
    obtain ⟨born, version⟩ := h.stored w hw
    exact ⟨born, Nat.le_trans version later⟩
  | create key numbered free =>
    refine ⟨Nat.le_of_eq numbered, fun w' hw => ?_⟩
    obtain rfl := Option.some.inj hw
    exact ⟨Nat.le_refl _, Nat.le_of_eq numbered⟩
  | change found _ outcome => exact h.outcome found outcome _
  | delete found outcome => exact h.removal found outcome
  | write _ _ found outcome => exact h.outcome found outcome _
  | _ => exact ⟨h.born, h.stored⟩

end WorkerView

namespace Site

def view (s : Site) (k : Key) (a : Option Standing) : WorkerView :=
  ⟨s.api.workers.get? k, s.api.workers.version, a, s.history k⟩

/-- Every attempt keeps to the protocol, and every worker stands under its key. -/
structure Sound (s : Site) : Prop where
  keyed : s.api.workers.Keyed
  stands : ∀ k, ∃ a, s.Stands k a

theorem sound_opened : opened.Sound := ⟨Tracker.keyed_empty, fun _ => ⟨none, .none⟩⟩

end Site

/-! ### What a step of the site is to a view -/

namespace AttemptState

variable {k : Key} {a a' : Api} {stage : AttemptState} {stage' : Option AttemptState}
  {notes : List Note}
  {st : Standing}

/-- An attempt only writes to the log of its own key. -/
theorem Moves.key (hm : stage.Moves k a stage' a' notes) (ho : stage.Obeys k st) :
    ∀ n ∈ notes, n.key = k := by
  intro n hn
  cases hm with
  | lose reason => exact congrArg Note.key (List.mem_singleton.mp hn)
  | cut => exact congrArg Note.key (List.mem_singleton.mp hn)
  | call =>
    obtain ⟨hp⟩ := ho
    rw [List.mem_singleton.mp hn]
    exact hp.1.key
  | reply r =>
    obtain _ | ⟨key, _⟩ := ho
    rw [List.mem_singleton.mp hn]
    exact key
  | _ => cases hn

/-- An attempt only writes to the worker of its own key. -/
theorem Moves.others (hm : stage.Moves k a stage' a' notes) (ho : stage.Obeys k st)
    (keyed : a.workers.Keyed) {k' : Key} (hk : k' ≠ k) :
    a'.workers.get? k' = a.workers.get? k' ∧ a.workers.version ≤ a'.workers.version := by
  cases hm with
  | @write w next =>
    obtain ⟨hp⟩ := ho
    have key : w.key = k := hp.1.key
    cases stored : a.workers.get? w.key with
    | none =>
      rw [Api.write_of_missing stored]
      exact ⟨rfl, Nat.le_refl _⟩
    | some old =>
      obtain ⟨_, outcome, others⟩ := Api.outcome_write stored (keyed _ _ stored)
      exact ⟨others k' fun e => hk (e.trans key), outcome.later⟩
  | _ => exact ⟨rfl, Nat.le_refl _⟩

theorem Moves.keyed (hm : stage.Moves k a stage' a' notes) (keyed : a.workers.Keyed) :
    a'.workers.Keyed := by
  cases hm with
  | write => exact Api.keyed_write keyed _
  | _ => exact keyed

/-- A step of an attempt, as its own key sees it. -/
theorem Moves.view (may : Worker → Worker → Prop) (hm : stage.Moves k a stage' a' notes)
    (ho : stage.Obeys k st) (keyed : a.workers.Keyed) (log : List Note) :
    ∃ st', Option.Rel (Obeys k) st' stage' ∧
      WorkerView.Step may k ⟨a.workers.get? k, a.workers.version, some st, log⟩
        ⟨a'.workers.get? k, a'.workers.version, st', notes ++ log⟩ := by
  cases hm with
  | look =>
    obtain ⟨hp⟩ := ho
    have told := hp a.caches fun w stored => keyed k w stored
    exact ⟨some (st.saw (a.workers.get? k)), .some (.going told), .look rfl⟩
  | clock now =>
    obtain ⟨hp⟩ := ho
    exact ⟨some st, .some (.going (hp now)), .pass (Nat.le_refl _)⟩
  | @write w next =>
    obtain ⟨hp⟩ := ho
    obtain ⟨allowed, done, failed⟩ := hp
    have key : w.key = k := allowed.key
    cases stored : a.workers.get? w.key with
    | none =>
      rw [Api.write_of_missing stored]
      exact ⟨some .ended, .some (.going (failed _)), .miss rfl (key ▸ stored)⟩
    | some old =>
      obtain ⟨ok, outcome, _⟩ := Api.outcome_write stored (keyed _ _ stored)
      rw [ok]
      rw [key] at stored outcome
      exact ⟨some (st.wrote w), .some (.going done), .write rfl allowed stored outcome⟩
  | lose reason =>
    obtain ⟨hp⟩ := ho
    exact ⟨some .ended, .some (.going (hp.2.2 _)), .lose rfl⟩
  | @call c next =>
    obtain ⟨hp⟩ := ho
    exact ⟨some (.calling c), .some (.calling hp.1.key hp.2), .call rfl hp.1⟩
  | @reply c next r =>
    obtain _ | ⟨_, hr⟩ := ho
    exact ⟨some (.answered c r false false), .some (.going (hr r)), .reply rfl r⟩
  | finish =>
    obtain ⟨hp⟩ := ho
    exact ⟨none, .none, .finish rfl hp⟩
  | cut => exact ⟨none, .none, .cut⟩

end AttemptState

namespace Site

variable {may : Worker → Worker → Prop} {s s' : Site}

/-- The part of the log about `k` after entries about one key were added. -/
theorem filter_append {k k' : Key} {notes : List Note} (h : ∀ n ∈ notes, n.key = k')
    (log : List Note) :
    (notes ++ log).filter (·.key = k) =
      (if k = k' then notes else []) ++ log.filter (·.key = k) := by
  rw [List.filter_append]
  congr 1
  split
  · rename_i hk
    exact List.filter_eq_self.mpr fun n hn => decide_eq_true ((h n hn).trans hk.symm)
  · rename_i hk
    refine List.filter_eq_nil_iff.mpr fun n hn he => hk ?_
    exact (of_decide_eq_true he).symm.trans (h n hn)

theorem history_cons {k : Key} {n : Note} (log : s'.log = n :: s.log) (key : n.key = k) :
    s'.history k = n :: s.history k := by
  rw [history, log]
  exact List.filter_cons_of_pos (decide_eq_true key)

theorem stands_update_self {attempts : Key → Option AttemptState} {k : Key}
    {stage : Option AttemptState}
    {a : Option Standing} (h : Option.Rel (AttemptState.Obeys k) a stage) (api : Api)
    (log : List Note) :
    Stands ⟨api, Function.update attempts k stage, log⟩ k a := by
  show Option.Rel _ a (Function.update attempts k stage k)
  rw [Function.update_self]
  exact h

theorem stands_update_of_ne {k k' : Key} {a : Option Standing} (h : s.Stands k a) (hk : k ≠ k')
    (stage : Option AttemptState) (api : Api) (log : List Note) :
    Stands ⟨api, Function.update s.attempts k' stage, log⟩ k a := by
  show Option.Rel _ a (Function.update s.attempts k' stage k)
  rw [Function.update_of_ne hk]
  exact h

theorem view_create (s : Site) (now : Timestamp) (x : Worker) (k : Key) (a : Option Standing) :
    WorkerView.Step may k (s.view k a)
      ⟨(s.api.workers.create now x).2.get? k, (s.api.workers.create now x).2.version, a,
        (noted (s.api.workers.create now x).1 ++ s.log).filter (·.key = k)⟩ := by
  rcases Tracker.create_cases s.api.workers now x with
    ⟨e, he⟩ | ⟨free, y, t, he, hy, hv, hg⟩
  · rw [he]
    exact .pass (Nat.le_refl _)
  · have key : y.key = x.key := by rw [hy]; rfl
    have numbered : y.metadata.resourceVersion = s.api.workers.version + 1 := by rw [hy]
    have about : ∀ n ∈ noted (.ok y), n.key = x.key := fun n hn => by
      rw [List.mem_singleton.mp hn]
      exact key
    rw [he]
    dsimp only
    rw [hg, hv, filter_append about]
    by_cases hk : k = x.key
    · rw [if_pos hk, if_pos hk]
      refine .create (key.trans hk.symm) numbered ?_
      show s.api.workers.get? k = none
      rw [hk]
      exact free
    · rw [if_neg hk, if_neg hk]
      exact .pass (Nat.le_succ _)

theorem view_change (sound : s.Sound) (k' : Key) (f : Worker → Worker)
    (allowed : ∀ old, s.api.workers.get? k' = some old → may old (f old)) (k : Key)
    (a : Option Standing) :
    WorkerView.Step may k (s.view k a)
      ⟨(s.api.workers.modify k' f).2.get? k, (s.api.workers.modify k' f).2.version, a,
        s.history k⟩ := by
  cases found : s.api.workers.get? k' with
  | none =>
    rw [Tracker.modify_of_missing found]
    exact .pass (Nat.le_refl _)
  | some old =>
    obtain ⟨_, outcome, others⟩ := Tracker.outcome_modify found (sound.keyed k' old found) f
    by_cases hk : k = k'
    · subst hk
      exact .change found (allowed old found) outcome
    · rw [others k hk]
      exact .pass outcome.later

theorem view_delete (sound : s.Sound) (now : Timestamp) (k' k : Key) (a : Option Standing) :
    WorkerView.Step may k (s.view k a)
      ⟨(s.api.workers.delete now k').2.get? k, (s.api.workers.delete now k').2.version, a,
        s.history k⟩ := by
  cases found : s.api.workers.get? k' with
  | none =>
    rw [Tracker.delete_of_missing found]
    exact .pass (Nat.le_refl _)
  | some old =>
    obtain ⟨_, outcome, others⟩ := Tracker.outcome_delete found (sound.keyed k' old found) now
    by_cases hk : k = k'
    · subst hk
      exact .delete found outcome
    · rw [others k hk]
      exact .pass outcome.later

/-- **Whatever happens at a site is a step of each of its views.** -/
theorem simulate (sound : s.Sound) (hs : Step may s s') {k : Key} {a : Option Standing}
    (ha : s.Stands k a) :
    ∃ a', s'.Stands k a' ∧ WorkerView.Step may k (s.view k a) (s'.view k a') := by
  cases hs with
  | create now x => exact ⟨a, ha, view_create s now x k a⟩
  | change k' f allowed => exact ⟨a, ha, view_change sound k' f allowed k a⟩
  | delete now k' => exact ⟨a, ha, view_delete sound now k' k a⟩
  | elsewhere api store version =>
    have stored : api.workers.get? k = s.api.workers.get? k := congrArg (·.get? k) store
    refine ⟨a, ha, ?_⟩
    show WorkerView.Step may k _ ⟨api.workers.get? k, api.workers.version, a, s.history k⟩
    rw [stored, version]
    exact .pass (Nat.le_refl _)
  | begin k' free =>
    by_cases hk : k = k'
    · subst hk
      rw [Stands, free] at ha
      cases ha
      have obeys := Provision.obeys_plan k
      exact ⟨some .outset, stands_update_self (.some (.going obeys)) _ _, .begin rfl⟩
    · exact ⟨a, stands_update_of_ne ha hk _ _ _, .pass (Nat.le_refl _)⟩
  | @move k' stage stage' api notes under moves =>
    obtain ⟨b, hb⟩ := sound.stands k'
    rw [Stands, under] at hb
    cases hb with
    | some ho =>
    have log := filter_append (k := k) (moves.key ho) s.log
    by_cases hk : k = k'
    · subst hk
      rw [Stands, under] at ha
      cases ha with
      | some ho =>
      obtain ⟨b', hb', step⟩ := moves.view may ho sound.keyed (s.history k)
      rw [if_pos rfl] at log
      refine ⟨b', stands_update_self hb' _ _, ?_⟩
      show WorkerView.Step may k _ ⟨_, _, b', (notes ++ s.log).filter (·.key = k)⟩
      rw [log]
      exact step
    · obtain ⟨stored, later⟩ := moves.others ho sound.keyed hk
      rw [if_neg hk, List.nil_append] at log
      refine ⟨a, stands_update_of_ne ha hk _ _ _, ?_⟩
      show WorkerView.Step may k _ ⟨api.workers.get? k, _, a, (notes ++ s.log).filter (·.key = k)⟩
      rw [log, stored]
      exact .pass later

theorem Sound.step (sound : s.Sound) (hs : Step may s s') : s'.Sound := by
  refine ⟨?_, fun k => ?_⟩
  · cases hs with
    | create now x => exact sound.keyed.create now x
    | change k f _ => exact sound.keyed.modify k f
    | delete now k => exact sound.keyed.delete now k
    | elsewhere api store _ => exact sound.keyed.of_store store
    | begin => exact sound.keyed
    | move _ moves => exact moves.keyed sound.keyed
  · obtain ⟨a, ha⟩ := sound.stands k
    obtain ⟨a', ha', _⟩ := simulate sound hs ha
    exact ⟨a', ha'⟩

theorem Step.mono {may' : Worker → Worker → Prop} (h : ∀ old new, may old new → may' old new)
    (hs : Step may s s') : Step may' s s' := by
  cases hs with
  | create now x => exact .create s now x
  | change k f allowed => exact .change s k f fun old found => h _ _ (allowed old found)
  | delete now k => exact .delete s now k
  | elsewhere a store version => exact .elsewhere s a store version
  | begin k free => exact .begin s k free
  | move under moves => exact .move s under moves

/-- Nothing is taken out of the log. -/
theorem Step.log_suffix (hs : Step may s s') : s.log <:+ s'.log := by
  cases hs with
  | create => exact List.suffix_append _ _
  | move => exact List.suffix_append _ _
  | _ => exact List.suffix_rfl

/-- The sites that can be reached. -/
abbrev Reaches (may : Worker → Worker → Prop) : Site → Site → Prop :=
  Relation.ReflTransGen (Step may)

theorem log_suffix (run : Reaches may s s') : s.log <:+ s'.log := by
  induction run with
  | refl => exact List.suffix_rfl
  | tail _ hs ih => exact ih.trans hs.log_suffix

theorem sound_of_reaches (h : Reaches may opened s) : s.Sound := by
  induction h with
  | refl => exact sound_opened
  | tail _ step ih => exact ih.step step

/-- An invariant of one view holds wherever the site gets. The steps may be limited further. -/
theorem view_of_reaches {k : Key} {R : Site → Site → Prop} {I : WorkerView → Prop}
    (isStep : ∀ {s s'}, R s s' → Step may s s') (opened_ : I ⟨none, 0, none, []⟩)
    (step : ∀ {s s' a a'}, R s s' → s.Stands k a → I (s.view k a) →
      WorkerView.Step may k (s.view k a) (s'.view k a') → I (s'.view k a'))
    (h : Relation.ReflTransGen R opened s) : ∃ a, s.Stands k a ∧ I (s.view k a) := by
  induction h with
  | refl => exact ⟨none, .none, opened_⟩
  | tail before hs ih =>
    obtain ⟨a, ha, inv⟩ := ih
    have sound := sound_of_reaches (before.lift id fun _ _ h => isStep h)
    obtain ⟨a', ha', hs'⟩ := simulate sound (isStep hs) ha
    exact ⟨a', ha', step hs ha inv hs'⟩

/-- The stored worker is not older than the last one created. -/
theorem birth_le {k : Key} {w : Worker} (h : Reaches may opened s)
    (found : s.api.workers.get? k = some w) :
    birth (s.history k) ≤ w.metadata.resourceVersion := by
  obtain ⟨a, _, dated⟩ :=
    view_of_reaches id (WorkerView.dated_opened 0) (fun _ _ dated hs => dated.step hs) h
  exact (dated.stored w found).1

end Site

end PoolControl
