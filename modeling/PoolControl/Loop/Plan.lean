import PoolControl.Api.Write
import PoolControl.Duration

/-! What an attempt on a key does, step by step.

A plan is the rest of an attempt: it has ended with a result, or it looks at the caches,
reads the clock, writes to the API or calls the actuator, and goes on with the answer. It
fixes nothing about the answers, so what a loop does can be told for caches that change
between steps, for writes that fail, and for every answer of the actuator. `advance` takes
a plan to its next call of the actuator, the only step that may take time. -/
namespace PoolControl

/-- What to do with a key after an attempt that succeeded. -/
inductive Action
  | done
  | requeueAfter (d : Duration)
deriving DecidableEq

/-- Why an attempt failed, which decides whether the key is tried again. -/
inductive ReconcileError
  | retryable (reason : String)
  | terminal (reason : String)
deriving DecidableEq

namespace ReconcileError

def message : ReconcileError → String
  | .retryable s => "retryable: " ++ s
  | .terminal s => "terminal: " ++ s

/-- The message without the kind of error. -/
def reason : ReconcileError → String
  | .retryable s => s
  | .terminal s => s

def isRetryable : ReconcileError → Bool
  | .retryable _ => true
  | .terminal _ => false

end ReconcileError

/-- An API error as the failure of an attempt. -/
def ApiError.toReconcileError (e : ApiError) : ReconcileError :=
  match e with
  | .alreadyExists _ _ => .terminal e.message
  | .notFound _ _ => .retryable e.message
  | .unavailable _ => .retryable e.message

/-- What an attempt comes to. -/
abbrev Result := Except ReconcileError Action

/-- How an attempt ends. -/
inductive Ending
  | result (r : Result)
  | panicked

/-- The result that counts. A panic is a failure worth a retry. -/
def Ending.settled : Ending → Result
  | .result r => r
  | .panicked => .error (.retryable "reconciler panicked")

/-! ### The actuator -/

/-- The operations of a backend. -/
inductive Call
  | reconcile
  | delete
  | migrate
  | restore
deriving DecidableEq, Inhabited

instance : Choice Call where
  all := [.reconcile, .delete, .migrate, .restore]
  name
    | .reconcile => "reconcile"
    | .delete => "delete"
    | .migrate => "migrate"
    | .restore => "restore"
  ofName?
    | "reconcile" => some .reconcile
    | "delete" => some .delete
    | "migrate" => some .migrate
    | "restore" => some .restore
    | _ => none
  ofName?_name x := by cases x <;> rfl
  name_of_ofName? h := by grind

/-- A call with the worker and the cluster it is made for. -/
structure Command where
  call : Call
  worker : Worker
  cluster : Cluster

inductive ActuatorError
  | retryable (reason : String)
  | terminal (reason : String)
deriving DecidableEq

namespace ActuatorError

def message : ActuatorError → String
  | .retryable s => "retryable actuator error: " ++ s
  | .terminal s => "terminal actuator error: " ++ s

def isRetryable : ActuatorError → Bool
  | .retryable _ => true
  | .terminal _ => false

end ActuatorError

/-- The answer to a call: free-form data to store on the worker, if any, or an error. -/
abbrev Reply := Except ActuatorError (Option Json)

/-! ### Plans -/

inductive Plan
  | done (r : Result)
  | look (next : Caches → Plan)
  | clock (next : Timestamp → Plan)
  | write (w : Write) (next : Except ApiError Unit → Plan)
  | actuate (c : Command) (next : Reply → Plan)

/-- What answers the steps of a plan that take no time. -/
structure Surroundings (σ : Type) where
  look : σ → Caches
  clock : σ → Timestamp × σ
  write : Write → σ → Except ApiError Unit × σ

namespace Plan

/-- Where a plan stops for a while or for good. -/
inductive Stop
  | done (r : Result)
  | actuate (c : Command) (next : Reply → Plan)

variable {σ : Type}

/-- Runs a plan up to its next call of the actuator. -/
def advance (env : Surroundings σ) : Plan → σ → Stop × σ
  | .done r, s => (.done r, s)
  | .look next, s => advance env (next (env.look s)) s
  | .clock next, s =>
    let (t, s) := env.clock s
    advance env (next t) s
  | .write w next, s =>
    let (r, s) := env.write w s
    advance env (next r) s
  | .actuate c next, s => (.actuate c next, s)

/-- Runs a plan to its end, with an actuator that replies at once or panics. -/
def run (env : Surroundings σ) (act : Command → σ → Option Reply × σ) : Plan → σ → Ending × σ
  | .done r, s => (.result r, s)
  | .look next, s => run env act (next (env.look s)) s
  | .clock next, s =>
    let (t, s) := env.clock s
    run env act (next t) s
  | .write w next, s =>
    let (r, s) := env.write w s
    run env act (next r) s
  | .actuate c next, s =>
    match act c s with
    | (some r, s) => run env act (next r) s
    | (none, s) => (.panicked, s)

/-- Goes on after a write that succeeded. A write that failed ends the attempt. -/
def unlessError (next : Plan) : Except ApiError Unit → Plan
  | .ok () => next
  | .error e => .done (.error e.toReconcileError)

end Plan

end PoolControl
