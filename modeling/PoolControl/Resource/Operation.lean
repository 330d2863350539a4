import PoolControl.Resource.Choice
import PoolControl.Timestamp

/-! Operations on workers: the ones a user may request, and the record of the last one.

A request is the value of an annotation. What the record keeps is the kind of operation
that ran, how far it got, a description and the time, and beside it the last error. -/
namespace PoolControl

/-- What a user may request. -/
inductive Request
  | reconcile
  | migrate
  | restore
deriving DecidableEq

instance : Choice Request where
  all := [.reconcile, .migrate, .restore]
  name
    | .reconcile => "reconcile"
    | .migrate => "migrate"
    | .restore => "restore"
  ofName?
    | "reconcile" => some .reconcile
    | "migrate" => some .migrate
    | "restore" => some .restore
    | _ => none
  ofName?_name x := by cases x <;> rfl
  name_of_ofName? h := by grind

/-- Why a text is no request. -/
def Request.unknown (s : String) : String := "unknown operation: " ++ s

/-- The kind of an operation that ran. -/
inductive OperationKind
  | create
  | reconcile
  | delete
  | migrate
  | restore
deriving DecidableEq, Inhabited

instance : Choice OperationKind where
  all := [.create, .reconcile, .delete, .migrate, .restore]
  name
    | .create => "Create"
    | .reconcile => "Reconcile"
    | .delete => "Delete"
    | .migrate => "Migrate"
    | .restore => "Restore"
  ofName?
    | "Create" => some .create
    | "Reconcile" => some .reconcile
    | "Delete" => some .delete
    | "Migrate" => some .migrate
    | "Restore" => some .restore
    | _ => none
  ofName?_name x := by cases x <;> rfl
  name_of_ofName? h := by grind

/-- How far an operation got. `error` will be tried again, `failed` will not. -/
inductive OperationState
  | processing
  | succeeded
  | error
  | failed
deriving DecidableEq, Inhabited

instance : Choice OperationState where
  all := [.processing, .succeeded, .error, .failed]
  name
    | .processing => "Processing"
    | .succeeded => "Succeeded"
    | .error => "Error"
    | .failed => "Failed"
  ofName?
    | "Processing" => some .processing
    | "Succeeded" => some .succeeded
    | "Error" => some .error
    | "Failed" => some .failed
    | _ => none
  ofName?_name x := by cases x <;> rfl
  name_of_ofName? h := by grind

namespace Timestamp

def toJson (t : Timestamp) : Json := .string t.text

def ofJson (j : Json) : Option Timestamp := j.asString.bind read

end Timestamp

/-- The record of the last operation. -/
structure LastOperation where
  kind : OperationKind
  state : OperationState
  description : String
  time : Timestamp
deriving DecidableEq, Inhabited

namespace LastOperation

def succeeded (o : LastOperation) : Bool := o.state = .succeeded

def toJson (o : LastOperation) : Json :=
  .object [("type", Choice.toJson o.kind), ("state", Choice.toJson o.state),
    ("description", .string o.description), ("lastUpdateTime", o.time.toJson)]

def ofJson (j : Json) : Option LastOperation := do
  let f ← j.fields ["type", "state", "description", "lastUpdateTime"]
  return {
    kind := ← f.required 0 Choice.ofJson
    state := ← f.required 1 Choice.ofJson
    description := ← f.required 2 Json.asString
    time := ← f.required 3 Timestamp.ofJson }

end LastOperation

/-- The record of the last error. -/
structure LastError where
  description : String
  retryable : Bool
  time : Timestamp
deriving DecidableEq, Inhabited

namespace LastError

def toJson (e : LastError) : Json :=
  .object [("description", .string e.description), ("retryable", .bool e.retryable),
    ("lastUpdateTime", e.time.toJson)]

def ofJson (j : Json) : Option LastError := do
  let f ← j.fields ["description", "retryable", "lastUpdateTime"]
  return {
    description := ← f.required 0 Json.asString
    retryable := ← f.required 1 Json.asBool
    time := ← f.required 2 Timestamp.ofJson }

end LastError

end PoolControl
