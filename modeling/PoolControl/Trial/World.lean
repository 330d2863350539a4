import PoolControl.Controller.Fleet
import PoolControl.Loop.Attempt
import PoolControl.Loop.Idle
import PoolControl.Loop.Provision
import PoolControl.Loop.Report
import PoolControl.Routing.Wiring
import PoolControl.Trial.Script

/-! A small world to try the loops in.

It has an API, a clock that never shows the same time twice, a backend, and the two loops.
The writes of the loops can be told to fail before they reach the API, the backend follows
a script or creates nothing, and the loops may read workers from a cache that lags behind
the API. The world keeps note of writes and calls. A user of the world works on the
trackers and watches any of them. -/
namespace PoolControl

/-- What a write does. -/
inductive Write.Method
  | operationStatus
  | state
  | addFinalizer
  | removeFinalizer
  | clearRequest
deriving DecidableEq

def Write.method : Write → Write.Method
  | .operationStatus _ _ => .operationStatus
  | .state _ _ => .state
  | .addFinalizer _ _ => .addFinalizer
  | .removeFinalizer _ _ => .removeFinalizer
  | .clearRequest _ => .clearRequest

namespace Trial

/-- A call as the backend saw it. -/
structure Sighting where
  time : Instant
  call : Call
  key : Key
  cluster : String
  generation : Int
  requeues : UInt32
  request : Option String
  stopping : Bool

structure World where
  api : Api
  /-- How often the clock was read. -/
  readings : Nat
  /-- The cache of workers, if it is not the API's own. -/
  workerCache : Option (Store Worker)
  /-- What the next writes of each method do: fail, or reach the API after all. -/
  failures : Write.Method → List (Option ApiError)
  writes : List Write.Method
  /-- Whether the backend creates nothing, instead of following the script. -/
  isIdle : Bool
  /-- How often a backend that creates nothing was to create something. -/
  idleCount : Nat
  script : Script
  calls : List Sighting
  /-- The numbers and kinds of the feeds that are watched. -/
  feeds : List (Nat × Kind)
  /-- How many feeds there were. -/
  opened : Nat

namespace World

/-- The empty world. -/
def new (isIdle : Bool) : World :=
  { api := .empty, readings := 0, workerCache := none, failures := fun _ => [], writes := [],
    isIdle, idleCount := 0, script := ∅, calls := [], feeds := [], opened := 0 }

/-- A reading of the clock. It differs from any other, and from any time before it. -/
def reading (n : Nat) : Timestamp := ⟨200000, 1, 1, 0, 0, 0, n⟩

/-- Reads the clock. -/
def tell (w : World) : Timestamp × World :=
  (reading w.readings, { w with readings := w.readings + 1 })

/-! ### What the loops see -/

def caches (w : World) : Caches :=
  { w.api.caches with workers := w.workerCache.getD w.api.workers.store }

/-- A write of a loop. -/
def write (x : Write) (w : World) : Except ApiError Unit × World :=
  let m := x.method
  let w := { w with writes := w.writes ++ [m] }
  let pass (w : World) :=
    let (r, a) := w.api.write x
    (r, { w with api := a })
  match w.failures m with
  | [] => pass w
  | e :: rest =>
    let w := { w with failures := fun n => if n = m then rest else w.failures n }
    match e with
    | some e => (.error e, w)
    | none => pass w

def surroundings : Surroundings World := ⟨caches, tell, write⟩

/-! ### The backend -/

/-- A call reaches the backend. -/
def enter (m : Moment) (v : Visit) (c : Command) (w : World) : (List Pause × Outcome) × World :=
  if w.isIdle then (([], .usual), w)
  else
    let k := c.worker.key
    let (o, script) := w.script.next c.call k
    let seen : Sighting :=
      { time := m.now, call := c.call, key := k, cluster := c.cluster.metadata.name,
        generation := c.worker.metadata.generation, requeues := v.requeues,
        request := c.worker.metadata.request?, stopping := m.stopping }
    ((o.pauses, o), { w with script, calls := w.calls ++ [seen] })

def reply? (c : Command) (o : Outcome) (w : World) : Option Reply × World :=
  if w.isIdle then
    let (r, n) := Idle.reply c w.idleCount
    (some r, { w with idleCount := n })
  else (o.reply? c, w)

def actuator : Actuator World Outcome := ⟨enter, reply?⟩

/-- A whole attempt without waiting for anything. -/
def attempt (m : Moment) (v : Visit) (p : Plan) (w : World) : Ending × World :=
  p.run surroundings (actuator.call m v) w

/-! ### What users do -/

/-- Works on the tracker of a kind at a given time. -/
def edit {α : Type} (K : Type) [Tracked K] (f : Timestamp → Tracker K → α × Tracker K) (w : World) :
    α × World :=
  let (now, w) := w.tell
  let (x, t) := f now (Tracked.tracker w.api)
  (x, { w with api := Tracked.withTracker w.api t })

/-- Changes the tracker of a kind. -/
def change (K : Type) [Tracked K] (f : Tracker K → Tracker K) (w : World) : World :=
  { w with api := Tracked.withTracker w.api (f (Tracked.tracker w.api)) }

/-- Opens a feed. -/
def watch (K : Type) [Tracked K] (w : World) : World :=
  let n := w.opened
  { w.change K (·.watch n) with feeds := w.feeds ++ [(n, Resource.kind K)], opened := n + 1 }

/-- Lets the next write of a method fail with an error, or pass. -/
def fail (m : Write.Method) (e : Option ApiError) (w : World) : World :=
  { w with failures := fun n => if n = m then w.failures m ++ [e] else w.failures n }

/-! ### Controllers -/

/-- The watch that dispatches the events of a feed. -/
def dispatching {K : Type} [Tracked K] (feed : Nat) (d : Dispatcher K) : Watch World where
  next w :=
    match (Tracked.tracker (K := K) w.api).pending feed with
    | [] => none
    | e :: _ => some (d.keys w.api.caches e, w.change K (·.advance feed 1))

/-- The controllers of both loops, which start with what the world holds. -/
def fleet (ignoreRequests : Bool) (backend : String) (o : Controller.Options) (w : World) :
    Fleet World (Pending Outcome) :=
  let n := w.opened
  let w := (((w.watch Worker).watch Cluster).watch MachineSet).watch Machine
  let clusters : List (Watch World) :=
    if ignoreRequests then [] else [dispatching (n + 1) (Wiring.clusters ignoreRequests backend)]
  let loop (plan : Key → Plan) := Plan.reconciler plan surroundings actuator
  .new w
    [.new "worker" o (dispatching n (Wiring.workers ignoreRequests backend) :: clusters)
        (loop Provision.plan),
      .new "worker-state" o
        [dispatching (n + 2) (Wiring.machineSets backend),
          dispatching (n + 3) (Wiring.machines backend)] (loop Report.plan)]

end World

end Trial

end PoolControl
