import PoolControl.Controller.Fleet

/-! A controller on its own, with attempts that follow a script.

Events come through streams that are fed by hand. What an event triggers is looked up when
it is delivered, in caches that are changed by hand, too. Each attempt takes the next
outcome of its key: it works for some time, may wait for the stop, and ends; without
outcomes left it is done at once. The start and the end of each attempt are logged. -/
namespace PoolControl.Trial

/-- How an attempt goes. -/
structure Drill.Outcome where
  work : Option Duration
  untilStop : Bool
  ending : Ending

/-- What is logged of an attempt. -/
inductive Drill.Note
  | start (requeues : UInt32)
  | finish (stopping : Bool)

structure Drill.Entry where
  time : Instant
  key : Key
  note : Drill.Note

/-- Events that were sent but not delivered, as the keys each triggers given the caches. -/
structure Drill.Stream where
  pending : List (Caches → OrderedSet Key)
  isOpen : Bool

structure Drill where
  caches : Caches
  streams : List Drill.Stream
  script : OrderedMap Key (List Drill.Outcome)
  log : List Drill.Entry

namespace Drill

/-- The watch of a stream. -/
def watch (i : Nat) : Watch Drill where
  next d :=
    match (d.streams[i]?.map Stream.pending).getD [] with
    | [] => none
    | keys :: rest =>
      some (keys d.caches,
        { d with streams := d.streams.modify i fun s => { s with pending := rest } })

/-- Sends an event to a stream. A closed stream loses it. -/
def emit (i : Nat) (keys : Caches → OrderedSet Key) (d : Drill) : Drill :=
  { d with
    streams := d.streams.modify i fun s =>
      if s.isOpen then { s with pending := s.pending ++ [keys] } else s }

/-- Closes a stream. -/
def close (i : Nat) (d : Drill) : Drill :=
  { d with streams := d.streams.modify i fun s => { s with isOpen := false } }

def Outcome.pauses (o : Outcome) : List Pause :=
  o.work.toList.map .sleep ++ if o.untilStop then [.untilStop] else []

/-- Takes the next outcome of a key. -/
def take (k : Key) (d : Drill) : Outcome × Drill :=
  match d.script.getD k [] with
  | [] => (⟨none, false, .result (.ok .done)⟩, d)
  | o :: rest => (o, { d with script := d.script.insert k rest })

def note (t : Instant) (k : Key) (n : Note) (d : Drill) : Drill :=
  { d with log := d.log ++ [⟨t, k, n⟩] }

/-- Attempts that follow the script. -/
def reconciler : Reconciler Drill Outcome where
  start m v d :=
    let (o, d) := (d.note m.now v.key (.start v.requeues)).take v.key
    (.paused o.pauses o, d)
  resume m v o d := (.ended o.ending, d.note m.now v.key (.finish m.stopping))

end Drill

end PoolControl.Trial
