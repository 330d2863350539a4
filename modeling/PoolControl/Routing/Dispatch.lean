import PoolControl.Queue.WorkQueue
import PoolControl.Routing.Handler

/-! From events to a queue.

A dispatcher filters events, maps those that pass to keys and queues the keys in order.
An event that cannot be mapped is dropped whole. -/
namespace PoolControl

/-- Queues keys one after the other. -/
def WorkQueue.addAll {K : Type} [Ord K] [Std.TransOrd K] [Std.LawfulEqOrd K] (q : WorkQueue K)
    (ks : List K) : WorkQueue K :=
  ks.foldl WorkQueue.add q

/-- A filter on events with the handler of those that pass. -/
structure Dispatcher (S : Type) where
  predicate : Predicate
  handler : Handler S

namespace Dispatcher

variable {S : Type} [Resource S]

/-- The keys to queue for an event. There are none at all if the event does not pass or
cannot be mapped. -/
def keys (d : Dispatcher S) (caches : Caches) (e : Event S) : OrderedSet Key :=
  if d.predicate.keeps caches.clusters e then
    match d.handler.keys caches e with
    | .ok ks => ks
    | .error _ => ∅
  else ∅

/-- Queues the keys of an event. -/
def dispatch (d : Dispatcher S) (caches : Caches) (e : Event S) (q : WorkQueue Key) :
    WorkQueue Key :=
  q.addAll (OrderedSet.elements (d.keys caches e))

/-- Dispatches an event and tells how many keys were handed to the queue. -/
def handOver (d : Dispatcher S) (caches : Caches) (e : Event S) (q : WorkQueue Key) :
    Nat × WorkQueue Key :=
  ((d.keys caches e).size, d.dispatch caches e q)

end Dispatcher

end PoolControl
