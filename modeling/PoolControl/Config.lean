import PoolControl.Controller.Options
import PoolControl.Text.Natural

/-! Settings from the environment.

Every setting has a variable and a default. A variable that is set counts even if it is
empty. Settings are read in a fixed order and the first that is not acceptable is the
error: a number that cannot be read, no concurrency at all, or a longest delay below the
first. -/
namespace PoolControl

structure Config where
  /-- Workers of other backends are ignored. -/
  backend : String
  /-- Whether any change of a spec counts, instead of requests only. -/
  ignoreRequests : Bool
  concurrency : Nat
  backoff : Backoff.Policy
  drain : Duration
  logLevel : String
deriving DecidableEq

namespace Config

/-- The settings that are numbers. -/
inductive Number
  | concurrency
  | backoffBase
  | backoffCeiling
  | drain
deriving DecidableEq

namespace Number

/-- The variable of a setting. -/
def variableName : Number → String
  | .concurrency => "NODEPOOL_MAX_CONCURRENT_RECONCILES"
  | .backoffBase => "NODEPOOL_BACKOFF_BASE_MS"
  | .backoffCeiling => "NODEPOOL_BACKOFF_MAX_SECS"
  | .drain => "NODEPOOL_DRAIN_TIMEOUT_SECS"

/-- What a value has to be. -/
def requirement : Number → String
  | .concurrency => "must be a positive integer"
  | _ => "must be an integer"

/-- The value of a variable that is not set, in the unit of the setting. -/
def absent : Number → UInt64
  | .concurrency => 5
  | .backoffBase => 100
  | .backoffCeiling => 300
  | .drain => 30

end Number

inductive ReadError
  /-- The variable of a number does not hold one. -/
  | malformed (number : Number) (cause : Text.NaturalError)
  | noConcurrency
  | ceilingBelowBase
deriving DecidableEq

namespace ReadError

def message : ReadError → String
  | .malformed n _ => n.variableName ++ " " ++ n.requirement
  | .noConcurrency => Number.concurrency.variableName ++ " must be at least 1"
  | .ceilingBelowBase =>
    Number.backoffCeiling.variableName ++ " must not be below " ++ Number.backoffBase.variableName

/-- The messages of what caused the error. -/
def causes : ReadError → List String
  | .malformed _ cause => [cause.message]
  | _ => []

end ReadError

/-- Reads a number below `2 ^ 64`. -/
def number (lookup : String → Option String) (n : Number) : Except ReadError UInt64 :=
  match lookup n.variableName with
  | none => .ok n.absent
  | some s =>
    match Text.natural UInt64.size s with
    | .ok v => .ok (UInt64.ofNat v)
    | .error e => .error (.malformed n e)

/-- Whether a text means yes. -/
def isYes (s : String) : Bool := s == "1" || s.toLower == "true"

/-- Reads the settings from the variables that `lookup` finds. -/
def read (lookup : String → Option String) : Except ReadError Config := do
  let concurrency ← number lookup .concurrency
  if concurrency = 0 then throw .noConcurrency
  let base := Duration.ofMillis (← number lookup .backoffBase)
  let ceiling := Duration.ofSecs (← number lookup .backoffCeiling)
  if ceiling.lt base then throw .ceilingBelowBase
  let drain := Duration.ofSecs (← number lookup .drain)
  return {
    backend := (lookup "NODEPOOL_EXTENSION_TYPE").getD "local"
    ignoreRequests := ((lookup "NODEPOOL_IGNORE_OPERATION_ANNOTATION").map isYes).getD false
    concurrency := concurrency.toNat
    backoff := ⟨base, ceiling⟩
    drain
    logLevel := (lookup "NODEPOOL_LOG_LEVEL").getD "info" }

/-- The options of both controllers. -/
def options (c : Config) : Controller.Options := ⟨c.concurrency, c.backoff, c.drain⟩

end Config

end PoolControl
