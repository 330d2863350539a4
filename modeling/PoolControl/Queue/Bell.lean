/-! Waking up callers that wait for work.

A bell wakes the callers enrolled with it, first come, first served. A ring that finds
nobody is kept as one permit, which lets the next caller to enroll pass at once; several
such rings keep one permit only. A caller that leaves after a ring meant for it alone
passes the ring on. Ringing for everybody keeps no permit. -/
namespace PoolControl

/-- How a caller was woken: alone or with everybody else. -/
inductive Wake
  | alone
  | together
deriving DecidableEq

/-- The callers waiting, and those woken that have not run since. -/
structure Bell where
  permit : Bool
  waiting : List Nat
  woken : List (Nat × Wake)
deriving DecidableEq, Inhabited

namespace Bell

/-- Nobody waits and nothing rang. -/
def silent : Bell := ⟨false, [], []⟩

/-- Wakes one caller or keeps a permit. -/
def ring (b : Bell) : Bell :=
  match b.waiting with
  | [] => { b with permit := true }
  | c :: rest => { b with waiting := rest, woken := b.woken ++ [(c, .alone)] }

/-- Wakes every caller. -/
def ringAll (b : Bell) : Bell :=
  { b with waiting := [], woken := b.woken ++ b.waiting.map (·, .together) }

/-- Whether a caller that enrolls now passes at once. -/
def passes (b : Bell) : Bool := b.permit

/-- Whether a caller was woken and has not run since. -/
def isWoken (b : Bell) (c : Nat) : Bool := b.woken.any (·.1 = c)

/-- Enrolls a caller, or takes the permit for it. -/
def enroll (c : Nat) (b : Bell) : Bell :=
  if b.permit then { b with permit := false } else { b with waiting := b.waiting ++ [c] }

/-- Takes note that a woken caller runs. -/
def resume (c : Nat) (b : Bell) : Bell := { b with woken := b.woken.filter (·.1 ≠ c) }

/-- Ends the wait of a caller. -/
def leave (c : Nat) (b : Bell) : Bell :=
  let rest : Bell := { b with waiting := b.waiting.filter (· ≠ c) }.resume c
  if b.woken.contains (c, .alone) then rest.ring else rest

end Bell

end PoolControl
