import PoolControl.Backoff

/-! How a controller runs. -/
namespace PoolControl

/-- How many runners work on a controller's queue, how long failed keys wait, and how long
attempts may go on once the controller is to stop. -/
structure Controller.Options where
  concurrency : Nat
  backoff : Backoff.Policy
  drain : Duration
deriving DecidableEq

namespace Controller.Options

/-- One runner, the default backoff, and ten seconds to drain. -/
instance : Inhabited Options := ⟨⟨1, default, Duration.ofSecs 10⟩⟩

/-- The number of runners, which is at least one. -/
def runners (o : Options) : Nat := max 1 o.concurrency

end Controller.Options

end PoolControl
