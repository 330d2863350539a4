import PoolControl.Controller.Runner

/-! Attempts that follow a plan.

A plan runs at once up to a call of the actuator. A backend says what pauses the call makes
and how it ends: with a reply, with which the plan goes on, or with a panic, which ends
the attempt. -/
namespace PoolControl

/-- A backend. A call in progress is kept as a ticket `τ`. -/
structure Actuator (σ τ : Type) where
  enter : Moment → Visit → Command → σ → (List Pause × τ) × σ
  /-- The reply to a call, or none if it panics. -/
  reply? : Command → τ → σ → Option Reply × σ

/-- Makes a call without its pauses. -/
def Actuator.call {σ τ : Type} (act : Actuator σ τ) (m : Moment) (v : Visit) (c : Command) (s : σ) :
    Option Reply × σ :=
  let ((_, ticket), s) := act.enter m v c s
  act.reply? c ticket s

/-- A plan that waits for a reply. -/
structure Pending (τ : Type) where
  command : Command
  ticket : τ
  next : Reply → Plan

namespace Plan

variable {σ τ : Type}

/-- Goes on with a plan up to its next call. -/
def proceed (env : Surroundings σ) (act : Actuator σ τ) (m : Moment) (v : Visit) (p : Plan)
    (s : σ) : Progress (Pending τ) × σ :=
  match p.advance env s with
  | (.done r, s) => (.ended (.result r), s)
  | (.actuate c next, s) =>
    let ((pauses, ticket), s) := act.enter m v c s
    (.paused pauses ⟨c, ticket, next⟩, s)

/-- The attempts that follow the plan of each key. -/
def reconciler (plan : Key → Plan) (env : Surroundings σ) (act : Actuator σ τ) :
    Reconciler σ (Pending τ) where
  start m v s := proceed env act m v (plan v.key) s
  resume m v p s :=
    match act.reply? p.command p.ticket s with
    | (some r, s) => proceed env act m v (p.next r) s
    | (none, s) => (.ended .panicked, s)

end Plan

end PoolControl
