import PoolControl.Controller.Fleet
import PoolControl.Proofs.Queue.Delay

/-! A controller on duty.

A `Shift` is a running controller with any number of runners, before it is told to stop. In an
act time passes, somebody outside adds a key, at once or after a delay, or one of the
controller's tasks takes its next step: a watch, a runner, a timer that goes off, or the add of a
key that is due then. Acts come in any order, save that no time passes while a runner has
something to tell the queue, which it does without waiting. What attempts do is up to the
reconciler. A journal is kept beside its state, in which it is entered when an attempt begins,
with what it is given, and how and when it ends.

In a `Punctual` run no delayed add is late, since time passes only up to the next deadline and
after everything due was added. A run that `Spares` a key adds it neither through a caller nor
through a watch, so that whatever becomes of the key is the runners' doing. -/
namespace PoolControl

/-! ### The journal -/

/-- An entry of the journal. -/
inductive Entry
  | began (v : Visit)
  | ended (time : Instant) (v : Visit) (e : Ending)

def Entry.key : Entry → Key
  | began v => v.key
  | ended _ v _ => v.key

/-- What is entered about an attempt that ended, if it did. -/
def Entry.ends (now : Instant) (v : Visit) (e : Option Ending) : List Entry :=
  e.toList.map (.ended now v)

/-- How an attempt ended, if it got so far. -/
def Progress.ending? {ρ : Type} : Progress ρ → Option Ending
  | .ended e => some e
  | .paused _ _ => none

variable {σ ρ : Type}

/-- The same reconciler with a journal of its attempts, newest entry first. -/
def Reconciler.journaled (r : Reconciler σ ρ) : Reconciler (σ × List Entry) ρ where
  start m v s :=
    let (p, s') := r.start m v s.1
    (p, s', Entry.ends m.now v p.ending? ++ .began v :: s.2)
  resume m v rest s :=
    let (p, s') := r.resume m v rest s.1
    (p, s', Entry.ends m.now v p.ending? ++ s.2)

/-- The same watch, with something beside the state that it leaves alone. -/
def Watch.beside {τ : Type} (w : Watch σ) : Watch (σ × τ) where
  next s := (w.next s.1).map fun (ks, s') => (ks, s', s.2)

/-- What is entered about an attempt belongs to the history of its key. -/
theorem Entry.filter_ends (now : Instant) (v : Visit) (e : Option Ending) (log : List Entry)
    (k : Key) :
    (ends now v e ++ log).filter (·.key = k) =
      (if v.key = k then ends now v e else []) ++ log.filter (·.key = k) := by
  cases e with
  | none => simp [ends]
  | some e => by_cases hk : v.key = k <;> simp [ends, key, hk]

/-- An attempt that began before did not begin when one ended. -/
theorem Entry.began_suffix_ends {v v' : Visit} {now : Instant} {e : Option Ending}
    {before log : List Entry} :
    began v :: before <:+ ends now v' e ++ log ↔ began v :: before <:+ log := by
  cases e with
  | none => exact Iff.rfl
  | some e => exact List.suffix_cons_iff.trans (or_iff_right nofun)

theorem Entry.filter_began (v : Visit) (log : List Entry) (k : Key) :
    (began v :: log).filter (·.key = k) =
      (if v.key = k then [began v] else []) ++ log.filter (·.key = k) := by
  by_cases hk : v.key = k <;> simp [key, hk]

/-! ### Shifts -/

/-- Whether a runner has something to tell the queue. -/
def Runner.isClosing : Runner ρ → Bool
  | .closing _ _ => true
  | _ => false

structure Shift (σ ρ : Type) where
  now : Instant
  controller : Controller (σ × List Entry) ρ
  state : σ × List Entry

namespace Shift

/-- A controller that was just started. -/
def opened (name : String) (o : Controller.Options) (watches : List (Watch σ))
    (r : Reconciler σ ρ) (s : σ) : Shift σ ρ :=
  ⟨0, (Controller.new name o (watches.map .beside) r.journaled).start, s, []⟩

/-- What may happen on a shift. -/
inductive Act
  | pass (time : Nat)
  | add (k : Key)
  | addAfter (k : Key) (d : Duration)
  | task (t : Controller.Task)
deriving DecidableEq

/-- When an act can happen. -/
def Allows (x : Shift σ ρ) : Act → Prop
  | .pass _ => ∀ runner ∈ x.controller.runners, runner.isClosing = false
  | .task t => x.controller.isReady x.now .quiet x.state t = true
  | _ => True

instance (x : Shift σ ρ) : DecidablePred x.Allows := fun a => by
  cases a <;> simp only [Allows] <;> infer_instance

/-- What an act makes of the shift. -/
def next (x : Shift σ ρ) : Act → Shift σ ρ
  | .pass time => { x with now := x.now + time }
  | .add k => { x with controller := { x.controller with queue := x.controller.queue.add k } }
  | .addAfter k d =>
    { x with
      controller := { x.controller with queue := (x.controller.queue.addAfter x.now k d).1 } }
  | .task t =>
    let (c, s) := x.controller.step ⟨x.now, false⟩ x.state t
    { x with controller := c, state := s }

abbrev system : System (Shift σ ρ) Act := ⟨next, Allows⟩

def run (x : Shift σ ρ) (l : List Act) : Shift σ ρ := system.run x l

/-- Every act of a run can happen when its turn comes. -/
abbrev Lawful (x : Shift σ ρ) (l : List Act) : Prop := system.Lawful x l

instance (x : Shift σ ρ) : DecidablePred (system.Allows x) :=
  inferInstanceAs (DecidablePred x.Allows)

theorem run_append (x : Shift σ ρ) (l l' : List Act) : x.run (l ++ l') = (x.run l).run l' :=
  system.run_append x l l'

theorem lawful_append (x : Shift σ ρ) (l l' : List Act) :
    x.Lawful (l ++ l') ↔ x.Lawful l ∧ (x.run l).Lawful l' :=
  system.throughout_append Allows x l l'

/-- If time passes, it passes up to the next deadline at most, and every key that was due was added
before. -/
def Timely (x : Shift σ ρ) : Act → Prop
  | .pass time => x.controller.queue.OnTime (x.now + time)
  | _ => True

instance (x : Shift σ ρ) : DecidablePred x.Timely := fun a => by
  cases a <;> simp only [Timely] <;> infer_instance

/-- No delayed add of a run is late. -/
abbrev Punctual (x : Shift σ ρ) (l : List Act) : Prop := system.Throughout Timely x l

/-- Whether an act adds a key from outside, by a caller or by a watch. -/
def Adds (x : Shift σ ρ) (k : Key) : Act → Prop
  | .add k' => k' = k
  | .addAfter k' _ => k' = k
  | .task (.watch i) =>
    ∃ ks s, x.controller.watches[i]?.bind (·.next x.state) = some (ks, s) ∧
      k ∈ OrderedSet.elements ks
  | _ => False

/-- A run does not add a key from outside. -/
abbrev Spares (x : Shift σ ρ) (k : Key) (l : List Act) : Prop :=
  system.Throughout (fun x a => ¬ x.Adds k a) x l

/-- The entries of the journal about a key. -/
def history (x : Shift σ ρ) (k : Key) : List Entry := x.state.2.filter (·.key = k)

/-- Whether a runner has a key. -/
def Holds (x : Shift σ ρ) (i : Nat) (k : Key) : Prop :=
  ∃ runner, x.controller.runners[i]? = some runner ∧ runner.held? = some k

end Shift

end PoolControl
