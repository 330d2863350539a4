import PoolControl.Controller.Runner

/-! Backends that follow a script.

A script lists outcomes of calls under names: under that of the call for any worker, or
under that of the call and a worker for this worker alone. A call takes the next outcome
of its worker's own list, else of the general one; after the last it goes as usual. -/
namespace PoolControl.Trial

/-- How a call ends. -/
inductive Answer
  | panic
  | fail (e : ActuatorError)
  | give (status : Option Json)
  /-- Like a backend that works: with the number of pools after a `reconcile`. -/
  | usual

/-- How a call goes: it may sleep, then wait for the stop, and then it ends. -/
structure Outcome where
  sleep : Option Duration
  untilStop : Bool
  answer : Answer

namespace Outcome

def usual : Outcome := ⟨none, false, .usual⟩

def pauses (o : Outcome) : List Pause :=
  o.sleep.toList.map .sleep ++ if o.untilStop then [.untilStop] else []

/-- The reply to a call, or none if it panics. -/
def reply? (o : Outcome) (c : Command) : Option Reply :=
  match o.answer with
  | .panic => none
  | .fail e => some (.error e)
  | .give j => some (.ok j)
  | .usual =>
    match c.call with
    | .reconcile => some (.ok (some (.object [("pools", Json.ofNat c.worker.spec.pools.length)])))
    | _ => some (.ok none)

end Outcome

/-- The outcomes to come, by name. -/
abbrev Script := OrderedMap String (List Outcome)

namespace Script

/-- Adds outcomes under a name. -/
def append (s : Script) (name : String) (os : List Outcome) : Script :=
  OrderedMap.insert s name (OrderedMap.getD s name [] ++ os)

/-- Takes the next outcome under a name. -/
def take? (s : Script) (name : String) : Option (Outcome × Script) :=
  match OrderedMap.getD s name [] with
  | [] => none
  | o :: rest => some (o, OrderedMap.insert s name rest)

/-- Takes the outcome of a call for a worker. -/
def next (s : Script) (c : Call) (k : Key) : Outcome × Script :=
  let name := Choice.name c
  ((s.take? (name ++ " " ++ k.text)).or (s.take? name)).getD (.usual, s)

end Script

end PoolControl.Trial
