import PoolControl.Loop.Plan

/-! A backend that creates nothing.

It replies to a call that would create machines with a count of such calls and the names
of the worker's pools, and to any other call with nothing. -/
namespace PoolControl.Idle

/-- Whether a call would create machines. -/
def creates : Call → Bool
  | .reconcile => true
  | .restore => true
  | _ => false

/-- What is stored on a worker after the `n`-th call that would create machines. -/
def status (n : Nat) (w : Worker) : Json :=
  .object [("pools", Json.ofList (fun p => .string p.name) w.spec.pools),
    ("reconciles", Json.ofNat n)]

/-- The reply to a call and the count after it, given the count before. -/
def reply (c : Command) (n : Nat) : Reply × Nat :=
  if creates c.call then (.ok (some (status (n + 1) c.worker)), n + 1) else (.ok none, n)

end PoolControl.Idle
