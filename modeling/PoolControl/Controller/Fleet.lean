import PoolControl.Controller.Options
import PoolControl.Controller.Runner
import PoolControl.Routing.Dispatch

/-! Controllers side by side on one clock.

A controller is a queue, watches that fill it and runners that empty it. Told to stop, it
ends its watches, shuts its queue down, and gives its runners until a deadline to get out
of their loops; runners that do not make it are cut off where they are, and the keys they
hold stay with them.

A fleet is a number of controllers over one state. At any time some tasks can take a step:
watches with an event, runners, timers whose time has come, keys that are due, and controllers
that are to stop. Tasks take turns in the order in which they became ready, and a task whose turn it
is goes on until it has to wait. Time passes only when no task is ready, and then from
deadline to deadline; tasks that are due at the same time become ready in the order in
which they began to wait. -/
namespace PoolControl

/-- A source of events: the keys of the next event, if there is one, and the state
without it. -/
structure Watch (σ : Type) where
  next : σ → Option (OrderedSet Key × σ)

/-- The signal to stop: not given, given, or never to come because its sender is gone.
The last ends controllers too, but attempts do not see it. -/
inductive Signal
  | quiet
  | stop
  | lost
deriving DecidableEq

/-- Whether there is nothing more to wait for. -/
def Signal.isOver (s : Signal) : Bool := s ≠ .quiet

/-! ### One controller -/

/-- How far a controller got. -/
inductive Controller.Phase
  | idle
  | running
  /-- Waiting for runners until a deadline. -/
  | draining (deadline : Instant)
  | stopped (time : Instant)
deriving DecidableEq

structure Controller (σ ρ : Type) where
  name : String
  options : Controller.Options
  queue : WorkQueue Key
  watches : List (Watch σ)
  reconciler : Reconciler σ ρ
  runners : List (Runner ρ)
  phase : Controller.Phase

namespace Controller

variable {σ ρ : Type}

/-- A controller that does not run yet. -/
def new (name : String) (o : Options) (watches : List (Watch σ)) (r : Reconciler σ ρ) :
    Controller σ ρ :=
  { name, options := o, queue := .new o.backoff, watches, reconciler := r, runners := [],
    phase := .idle }

/-- Starts the watches and the runners. -/
def start (c : Controller σ ρ) : Controller σ ρ :=
  { c with runners := List.replicate c.options.runners .asking, phase := .running }

/-- Ends the watches, shuts the queue down and starts to drain. -/
def stop (now : Instant) (c : Controller σ ρ) : Controller σ ρ :=
  { c with queue := c.queue.shutDown, phase := .draining (now + c.options.drain.toNanos) }

/-- Cuts off the runners that are left. -/
def finish (now : Instant) (c : Controller σ ρ) : Controller σ ρ :=
  { c with runners := c.runners.map fun _ => .gone, phase := .stopped now }

/-- When the controller had stopped. -/
def stopped? (c : Controller σ ρ) : Option Instant :=
  match c.phase with
  | .stopped t => some t
  | _ => none

/-- What can take a step within a controller. -/
inductive Task
  /-- Stopping the controller, in two steps. -/
  | stop
  | watch (i : Nat)
  | runner (i : Nat)
  /-- A timer goes off. -/
  | expire (k : Key) (t : Instant)
  /-- The key of a timer that went off is added. -/
  | deliver (k : Key)
deriving DecidableEq

/-- A timer that went off goes on to add its key. -/
def Task.goesOn : Task → List Task
  | .expire k _ => [.deliver k]
  | _ => []

/-- The tasks of a controller, ready or not. -/
def tasks (c : Controller σ ρ) : List Task :=
  .stop :: (List.range c.watches.length).map .watch ++
    (List.range c.runners.length).map .runner ++
    (c.queue.timers.map fun x => .expire x.1 x.2) ++
    c.queue.due.map .deliver

/-- Whether a task can take a step now. -/
def isReady (now : Instant) (signal : Signal) (s : σ) (c : Controller σ ρ) : Task → Bool
  | .stop =>
    match c.phase with
    | .running => signal.isOver
    | .draining deadline => deadline ≤ now || c.runners.all Runner.isGone
    | _ => false
  | .watch i => c.phase = .running && (c.watches[i]?.bind (·.next s)).isSome
  | .runner i =>
    match c.runners[i]? with
    | some r => r.isReady now (c.queue.bell.isWoken i) signal.isOver
    | none => false
  | .expire k t => t ≤ now && c.queue.timers.contains (k, t)
  | .deliver k => c.queue.due.contains k

/-- The next step of a task. -/
def step (m : Moment) (s : σ) (c : Controller σ ρ) : Task → Controller σ ρ × σ
  | .stop => (if c.phase = .running then c.stop m.now else c.finish m.now, s)
  | .watch i =>
    match c.watches[i]?.bind (·.next s) with
    | some (ks, s) => ({ c with queue := c.queue.addAll (OrderedSet.elements ks) }, s)
    | none => (c, s)
  | .runner i =>
    match c.runners[i]? with
    | some r =>
      let (r, q, s) := r.step c.reconciler m i c.queue s
      ({ c with queue := q, runners := c.runners.set i r }, s)
    | none => (c, s)
  | .expire k t => ({ c with queue := c.queue.expire k t }, s)
  | .deliver k => ({ c with queue := c.queue.deliver k }, s)

/-- The time that a task waits for. -/
def deadline? (c : Controller σ ρ) : Task → Option Instant
  | .stop =>
    match c.phase with
    | .draining t => some t
    | _ => none
  | .watch _ => none
  | .runner i => c.runners[i]?.bind Runner.deadline?
  | .expire k t => if c.queue.timers.contains (k, t) then some t else none
  | .deliver _ => none

end Controller

/-! ### Several controllers -/

/-- A task with the number of its controller. -/
abbrev Fleet.Task := Nat × Controller.Task

structure Fleet (σ ρ : Type) where
  now : Instant
  signal : Signal
  state : σ
  controllers : List (Controller σ ρ)
  /-- The tasks that were ready, the one in turn first. -/
  turns : List Fleet.Task
  /-- The tasks that wait for a time, in the order in which they began to. -/
  waits : List Fleet.Task

namespace Fleet

variable {σ ρ : Type}

def new (s : σ) (cs : List (Controller σ ρ)) : Fleet σ ρ :=
  { now := 0, signal := .quiet, state := s, controllers := cs, turns := [], waits := [] }

def moment (f : Fleet σ ρ) : Moment := ⟨f.now, f.signal = .stop⟩

/-- Changes one controller. -/
def change (i : Nat) (g : Controller σ ρ → Controller σ ρ) (f : Fleet σ ρ) : Fleet σ ρ :=
  { f with controllers := f.controllers.modify i g }

/-- Queues a key. -/
def enqueue (i : Nat) (k : Key) (f : Fleet σ ρ) : Fleet σ ρ :=
  f.change i fun c => { c with queue := c.queue.add k }

/-- Starts every controller. -/
def start (f : Fleet σ ρ) : Fleet σ ρ := { f with controllers := f.controllers.map (·.start) }

/-- Gives the signal to stop, if it can still be given. -/
def stop (f : Fleet σ ρ) : Fleet σ ρ :=
  if f.signal = .quiet then { f with signal := .stop } else f

/-- Loses the sender of the signal. -/
def loseSignal (f : Fleet σ ρ) : Fleet σ ρ :=
  if f.signal = .quiet then { f with signal := .lost } else f

/-- When the last controller had stopped. -/
def stopped? (f : Fleet σ ρ) : Option Instant :=
  f.controllers.foldr (fun c t => max <$> c.stopped? <*> t) (some 0)

/-! ### Turns -/

def isReady (f : Fleet σ ρ) (t : Task) : Bool :=
  match f.controllers[t.1]? with
  | some c => c.isReady f.now f.signal f.state t.2
  | none => false

/-- The time that a task waits for. -/
def deadline? (f : Fleet σ ρ) (t : Task) : Option Instant :=
  f.controllers[t.1]?.bind (·.deadline? t.2)

/-- All tasks, ready or not. -/
def tasks (f : Fleet σ ρ) : List Task :=
  f.controllers.zipIdx.flatMap fun (c, i) => c.tasks.map (i, ·)

/-- The tasks of a list that pass, followed by all others that do. -/
def gather (p : Task → Bool) (first : List Task) (f : Fleet σ ρ) : List Task :=
  let kept := first.filter p
  kept ++ f.tasks.filter fun t => p t && !kept.contains t

/-- Takes note of the tasks that began to wait. A runner that fell asleep counts before the
delayed adds it caused. -/
def noteWaits (f : Fleet σ ρ) : Fleet σ ρ :=
  { f with waits := f.gather (fun t => (f.deadline? t).isSome) f.waits }

/-- The tasks that are ready: those first that were ready before, then those that waited
for this time. -/
def ready (f : Fleet σ ρ) : List Task :=
  f.gather f.isReady (f.turns ++ f.waits.filter fun t => !f.turns.contains t)

/-- The next step of a task. -/
def turn (t : Task) (f : Fleet σ ρ) : Fleet σ ρ :=
  match f.controllers[t.1]? with
  | some c =>
    let (c, s) := c.step f.moment f.state t.2
    { f with state := s, controllers := f.controllers.set t.1 c }
  | none => f

/-- The fleet after the next step, if a task is ready. -/
def step? (f : Fleet σ ρ) : Option (Fleet σ ρ) :=
  match f.ready with
  | [] => none
  | t :: rest =>
    let f := if f.turns.head? = some t then f else f.noteWaits
    some ({ f with turns := t :: t.2.goesOn.map (t.1, ·) ++ rest }.turn t)

/-- Lets tasks take turns until none is ready. The number bounds the steps. -/
def settle : Nat → Fleet σ ρ → Fleet σ ρ
  | 0, f => f
  | n + 1, f =>
    match f.step? with
    | some f => settle n f
    | none => { f with turns := [] }.noteWaits

/-! ### Time -/

/-- The earliest time after now that something waits for. -/
def nextDeadline? (f : Fleet σ ρ) : Option Instant :=
  ((f.tasks.filterMap f.deadline?).filter (f.now < ·)).min?

/-- Lets time pass up to `t`, with at most `n` steps at any one time. -/
def advance (n : Nat) (t : Instant) (f : Fleet σ ρ) : Fleet σ ρ :=
  let g := f.settle n
  match g.nextDeadline? with
  | some d => if f.now < d ∧ d ≤ t then advance n t { g with now := d } else { g with now := t }
  | none => { g with now := t }
termination_by t - f.now
decreasing_by
  rename_i h
  exact Nat.sub_lt_sub_left (Nat.lt_of_lt_of_le h.1 h.2) h.1

end Fleet

end PoolControl
