import PoolControl.Queue.WorkQueue

/-! A work queue with numbered callers on a clock.

After whatever happens to the queue, the callers that were woken ask again, in the order in
which they were woken. The time passes only by hand, and then from one delayed add to the
next. -/
namespace PoolControl.Trial

structure Desk where
  now : Instant
  queue : WorkQueue String
  /-- How many callers came to wait. -/
  callers : Nat
  /-- The callers that got a key, or none because the queue was shut down. -/
  served : List (Nat × Option String)

namespace Desk

def new (p : Backoff.Policy) : Desk := ⟨0, .new p, 0, []⟩

/-- Takes note of what a caller found. -/
def receive (c : Nat) (d : Desk) : WorkQueue.Found String × WorkQueue String → Desk
  | (.key k, q) => { d with queue := q, served := d.served ++ [(c, some k)] }
  | (.shutDown, q) => { d with queue := q, served := d.served ++ [(c, none)] }
  | (.nothing, q) => { d with queue := q }

/-- Lets the first `n` woken callers ask again. -/
def serve : Nat → Desk → Desk
  | 0, d => d
  | n + 1, d =>
    match d.queue.bell.woken with
    | [] => d
    | (c, _) :: _ => serve n (d.receive c (d.queue.askAgain c))

/-- Lets every woken caller ask again. -/
def settle (d : Desk) : Desk := d.serve d.queue.bell.woken.length

/-- Something happens to the queue. -/
def act (f : WorkQueue String → WorkQueue String) (d : Desk) : Desk :=
  { d with queue := f d.queue }.settle

/-- Asks for a key without waiting for one. -/
def ask (d : Desk) : WorkQueue.Found String × Desk :=
  match d.queue.ask d.callers with
  | (.nothing, q) => (.nothing, { d with queue := q.giveUp d.callers }.settle)
  | (found, q) => (found, { d with queue := q }.settle)

/-- A caller comes to wait for a key. -/
def wait (d : Desk) : Desk :=
  let c := d.callers
  ({ d with callers := c + 1 }.receive c (d.queue.ask c)).settle

/-- Lets a timer go off and adds its key, if that is due. -/
def fire (k : String) (t : Instant) (d : Desk) : Desk :=
  let d := d.act (·.expire k t)
  if d.queue.due.contains k then d.act (·.deliver k) else d

/-- Lets time pass up to `t`. -/
def advance (t : Instant) (d : Desk) : Desk :=
  let timers := (d.queue.timers.filter (·.2 ≤ t)).mergeSort fun a b => a.2 ≤ b.2
  { timers.foldl (fun d x => { d with now := x.2 }.fire x.1 x.2) d with now := t }

end Desk

end PoolControl.Trial
