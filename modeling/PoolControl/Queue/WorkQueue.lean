import PoolControl.Backoff
import PoolControl.Queue.Bell

/-! The work queue of a controller.

A key is dirty from the moment it is added until it is handed out. A dirty key is ready
unless it is being processed; then it becomes ready again when it is done, so no key is
handed out twice at a time and no request made meanwhile is lost. Keys are handed out in
the order in which they became ready.

A delayed add is a deadline per key, the earliest of those asked for. Every deadline that
is set starts a timer. A timer that goes off withdraws its deadline if that still stands, so
timers left behind by earlier deadlines do nothing; its key is due then, and is added in a
step of its own. A delay that would end later than the clock can show is not set: the call
panics. Failures of a key are counted, and a rate-limited add waits for the delay of the
count. A queue that is shut down hands out nothing and takes nothing. -/
namespace PoolControl

structure WorkQueue (K : Type) [Ord K] where
  ready : List K
  dirty : OrderedSet K
  processing : OrderedSet K
  /-- The pending delayed adds. -/
  waiting : OrderedMap K Instant
  /-- The timers that have not gone off, oldest first. -/
  timers : List (K × Instant)
  /-- The keys of timers that went off, to be added yet. -/
  due : List K
  isShutDown : Bool
  backoff : Backoff K
  bell : Bell

namespace WorkQueue

/-- What a caller finds when it asks for a key. -/
inductive Found (K : Type)
  | key (k : K)
  | nothing
  | shutDown
deriving DecidableEq

variable {K : Type} [Ord K]

/-- The queue that holds nothing. -/
def new (p : Backoff.Policy) : WorkQueue K :=
  { ready := [], dirty := ∅, processing := ∅, waiting := ∅, timers := [], due := [],
    isShutDown := false, backoff := Backoff.ofPolicy p, bell := .silent }

variable [Std.TransOrd K] [Std.LawfulEqOrd K]

/-- Makes a key ready and wakes a caller for it. -/
def push (q : WorkQueue K) (k : K) : WorkQueue K :=
  { q with ready := q.ready ++ [k], bell := q.bell.ring }

/-- Marks a key as needing work. -/
def add (q : WorkQueue K) (k : K) : WorkQueue K :=
  if q.isShutDown || q.dirty.contains k then q
  else
    let q := { q with dirty := q.dirty.add k }
    if q.processing.contains k then q else q.push k

/-- Whether a pending delayed add comes no later than `t`. -/
def isDueBy (q : WorkQueue K) (k : K) (t : Instant) : Bool :=
  match q.waiting.get? k with
  | some t' => t' ≤ t
  | none => false

/-- Adds a key once a delay has passed. Of several deadlines the earliest counts. Whether the
call returns is the second part of the answer. If not it panics, with the queue as it was. -/
def addAfter (q : WorkQueue K) (now : Instant) (k : K) (d : Duration) : WorkQueue K × Bool :=
  if d.isZero then (q.add k, true)
  else match now.after? d with
    | none => (q, false)
    | some t =>
      if q.isShutDown || q.isDueBy k t then (q, true)
      else ({ q with waiting := q.waiting.insert k t, timers := q.timers ++ [(k, t)] }, true)

/-- Whether the delayed add of a key is set for this deadline. -/
def stands (q : WorkQueue K) (k : K) (t : Instant) : Bool := q.waiting.get? k = some t

/-- Lets a timer go off. If its deadline stands it is withdrawn, and the key is due. -/
def expire [DecidableEq K] (q : WorkQueue K) (k : K) (t : Instant) : WorkQueue K :=
  let q := { q with timers := q.timers.erase (k, t) }
  if q.stands k t then { q with waiting := q.waiting.erase k, due := q.due ++ [k] } else q

/-- Adds a key that is due. -/
def deliver [DecidableEq K] (q : WorkQueue K) (k : K) : WorkQueue K :=
  { q with due := q.due.erase k }.add k

/-- Adds a key after the delay of its failure count, and counts a failure, which also counts
if the call panics. -/
def addRateLimited (q : WorkQueue K) (now : Instant) (k : K) : WorkQueue K × Bool :=
  { q with backoff := q.backoff.fail k }.addAfter now k (q.backoff.nextDelay k)

/-- Starts the failure count of a key over. -/
def forget (q : WorkQueue K) (k : K) : WorkQueue K :=
  { q with backoff := q.backoff.forget k }

/-- Failures of a key since it was last forgotten. -/
def requeues (q : WorkQueue K) (k : K) : UInt32 := q.backoff.failures k

/-- Hands out the first ready key. -/
def take (q : WorkQueue K) : Found K × WorkQueue K :=
  if q.isShutDown then (.shutDown, q)
  else match q.ready with
    | [] => (.nothing, q)
    | k :: rest =>
      (.key k,
        { q with ready := rest, dirty := q.dirty.erase k, processing := q.processing.add k })

/-- Takes a key back. If it was added meanwhile it is ready again. -/
def done (q : WorkQueue K) (k : K) : WorkQueue K :=
  let q := { q with processing := q.processing.erase k }
  if q.isShutDown || !q.dirty.contains k then q else q.push k

/-- Stops handing out and taking keys, drops the delayed adds and wakes every caller. -/
def shutDown (q : WorkQueue K) : WorkQueue K :=
  { q with isShutDown := true, waiting := ∅, bell := q.bell.ringAll }

/-! ### Callers -/

/-- A caller asks for a key: it enrolls with the bell, looks for a key, and stays enrolled
if there is none. A caller that passed on a permit and found nothing enrolls again. -/
def ask (c : Nat) (q : WorkQueue K) : Found K × WorkQueue K :=
  let passed := q.bell.passes
  let q := { q with bell := q.bell.enroll c }
  match q.take with
  | (.nothing, q) =>
    (.nothing, if passed then { q with bell := q.bell.enroll c } else q)
  | (found, q) => (found, { q with bell := q.bell.leave c })

/-- A woken caller asks again. -/
def askAgain (c : Nat) (q : WorkQueue K) : Found K × WorkQueue K :=
  ask c { q with bell := q.bell.resume c }

/-- A caller that found nothing gives up. -/
def giveUp (c : Nat) (q : WorkQueue K) : WorkQueue K := { q with bell := q.bell.leave c }

omit [Std.TransOrd K] [Std.LawfulEqOrd K] in
/-- What the queue says of itself. -/
def describe (_ : WorkQueue K) : String := "WorkQueue \x7b .. \x7d"

end WorkQueue

end PoolControl
