import Irq.Operation

/-!
# Irq.Shared

A controller behind a lock. Every operation takes the lock for its whole length, the handler
included, so operations of several holders follow one another. A holder that fails while it has the
lock leaves a mark on it, but the next holder takes it all the same.
-/

namespace Irq

/-- A controller behind a lock. -/
structure Shared (σ : Type) where
  controller : Controller σ
  /-- Whether a holder has failed while it had the lock. -/
  poisoned : Bool := false

namespace Shared

variable {σ : Type}

/-- Carries out an operation under the lock. -/
def step (h : Handler σ) (s : Shared σ) (op : Operation) : Except Error Response × Shared σ :=
  let (response, controller) := s.controller.step h op
  (response, { s with controller })

/-- A holder fails without having touched the controller. -/
def poison (s : Shared σ) : Shared σ := { s with poisoned := true }

/-- The record text of a shared controller. -/
def describe (s : Shared σ) : String :=
  Text.record "SharedClic"
    [("inner", Text.openRecord "Mutex"
      [("data", s.controller.describe), ("poisoned", toString s.poisoned)])]

end Shared

end Irq
