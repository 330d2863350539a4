import PoolControl.Identity.Key
import PoolControl.Loop.Plan
import PoolControl.Queue.WorkQueue

/-! Runners, which take keys from a queue and make attempts on them.

A runner asks the queue for a key, makes an attempt on it, tells the queue how the attempt
ended, gives the key back and asks again, until the queue is shut down. If the queue panics at
what it is told, the runner dies with the key, which nobody gives back then. A reconciler says
what an attempt does: it may pause, for some time or until the controller is to stop, and
it ends with a result or with a panic, which counts as a failure worth a retry.
`Runner.step` is the smallest step of a runner, so any interleaving of runners with one
another and with other users of the queue is a sequence of such steps. -/
namespace PoolControl

/-! ### Attempts -/

/-- What an attempt is made on: a key, and how often it failed in a row before. -/
structure Visit where
  key : Key
  requeues : UInt32
deriving DecidableEq

/-- The time, and whether controllers were told to stop. -/
structure Moment where
  now : Instant
  stopping : Bool

/-- What an attempt may wait for. -/
inductive Pause
  | sleep (d : Duration)
  | untilStop
deriving DecidableEq

/-- How far an attempt got: to its end, or to some pauses, with the rest to follow. -/
inductive Progress (ρ : Type)
  | ended (e : Ending)
  | paused (pauses : List Pause) (rest : ρ)

/-- What attempts do to a state `σ`. A paused attempt is kept as its rest `ρ`. -/
structure Reconciler (σ ρ : Type) where
  start : Moment → Visit → σ → Progress ρ × σ
  resume : Moment → Visit → ρ → σ → Progress ρ × σ

/-! ### After an attempt -/

/-- What a runner tells the queue about a key. -/
inductive Closing
  | forget
  | addAfter (d : Duration)
  | addRateLimited
  | done
deriving DecidableEq

namespace Closing

/-- What the queue makes of it, and whether it returns. -/
def apply (now : Instant) (k : Key) (q : WorkQueue Key) : Closing → WorkQueue Key × Bool
  | .forget => (q.forget k, true)
  | .addAfter d => q.addAfter now k d
  | .addRateLimited => q.addRateLimited now k
  | .done => (q.done k, true)

end Closing

/-- Success and failures that retrying would not mend start the count of failures over. -/
def Result.closings : Result → List Closing
  | .ok .done => [.forget, .done]
  | .ok (.requeueAfter d) => [.forget, .addAfter d, .done]
  | .error (.retryable _) => [.addRateLimited, .done]
  | .error (.terminal _) => [.forget, .done]

/-! ### Runners -/

inductive Runner (ρ : Type)
  /-- About to ask for a key. -/
  | asking
  /-- Enrolled with the bell of the queue. -/
  | waiting
  /-- In a pause of an attempt that is over at a given time. -/
  | sleeping (v : Visit) (until_ : Instant) (later : List Pause) (rest : ρ)
  /-- In a pause of an attempt that lasts until controllers are to stop. -/
  | holding (v : Visit) (later : List Pause) (rest : ρ)
  /-- Through with the pauses of an attempt. -/
  | resuming (v : Visit) (rest : ρ)
  /-- Through with an attempt, with some of this still to tell the queue. -/
  | closing (k : Key) (todo : List Closing)
  /-- Died with a key, because the queue panicked at what it was told. -/
  | crashed (k : Key)
  | gone

namespace Runner

variable {σ ρ : Type}

/-- Whether the runner is out of the loop. -/
def isGone : Runner ρ → Bool
  | .gone => true
  | .crashed _ => true
  | _ => false

/-- The key that the runner has from the queue, if it is alive. -/
def held? : Runner ρ → Option Key
  | .sleeping v _ _ _ => some v.key
  | .holding v _ _ => some v.key
  | .resuming v _ => some v.key
  | .closing k todo => if todo.contains .done then some k else none
  | _ => none

/-- Whether a runner can take a step, given whether the bell woke it and whether waiting for
the stop is over. -/
def isReady (now : Instant) (woken released : Bool) : Runner ρ → Bool
  | .asking => true
  | .waiting => woken
  | .sleeping _ t _ _ => t ≤ now
  | .holding _ _ _ => released
  | .resuming _ _ => true
  | .closing _ _ => true
  | .crashed _ => false
  | .gone => false

/-- The time a runner sleeps until. -/
def deadline? : Runner ρ → Option Instant
  | .sleeping _ t _ _ => some t
  | _ => none

/-- Enters the first of some pauses. -/
def pause (now : Instant) (v : Visit) (pauses : List Pause) (rest : ρ) : Runner ρ :=
  match pauses with
  | [] => .resuming v rest
  | .sleep d :: later => .sleeping v (now + d.toNanos) later rest
  | .untilStop :: later => .holding v later rest

/-- Where a runner stands once an attempt got so far. -/
def after (now : Instant) (v : Visit) : Progress ρ → Runner ρ
  | .ended e => .closing v.key (Result.closings e.settled)
  | .paused pauses rest => pause now v pauses rest

/-- Takes the queue's answer. The failures of a key are looked up before the attempt. -/
def receive (r : Reconciler σ ρ) (m : Moment) (s : σ) :
    WorkQueue.Found Key × WorkQueue Key → Runner ρ × WorkQueue Key × σ
  | (.key k, q) =>
    let v : Visit := ⟨k, q.requeues k⟩
    let (p, s) := r.start m v s
    (after m.now v p, q, s)
  | (.nothing, q) => (.waiting, q, s)
  | (.shutDown, q) => (.gone, q, s)

/-- The next step of runner `id`. -/
def step (r : Reconciler σ ρ) (m : Moment) (id : Nat) (q : WorkQueue Key) (s : σ) :
    Runner ρ → Runner ρ × WorkQueue Key × σ
  | .asking => receive r m s (q.ask id)
  | .waiting => receive r m s (q.askAgain id)
  | .sleeping v _ later rest => (pause m.now v later rest, q, s)
  | .holding v later rest => (pause m.now v later rest, q, s)
  | .resuming v rest =>
    let (p, s) := r.resume m v rest s
    (after m.now v p, q, s)
  | .closing k (c :: todo) =>
    let (q, returned) := c.apply m.now k q
    (if returned then .closing k todo else .crashed k, q, s)
  | .closing _ [] => (.asking, q, s)
  | .crashed k => (.crashed k, q, s)
  | .gone => (.gone, q, s)

end Runner

end PoolControl
