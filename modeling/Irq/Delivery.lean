import Irq.Arbitration
import Irq.Text.Object
import Irq.Text.Record

/-!
# Irq.Delivery

A delivery is one service: the line that was serviced, the priority it had when it was chosen, and
the context that serviced it.
-/

namespace Irq

/-- One service of a line. -/
structure Delivery where
  /-- The serviced line. -/
  line : Nat
  /-- The priority of the line when it was chosen. -/
  priority : UInt8
  /-- The context that serviced it. -/
  context : Nat
  deriving DecidableEq

/-- The delivery of a request on a context. -/
def Request.on (r : Request) (context : Nat) : Delivery := ⟨r.line, r.priority, context⟩

namespace Delivery

/-- The compact object text of a delivery. -/
def object (d : Delivery) : String :=
  Text.object
    [("line", toString d.line), ("priority", toString d.priority.toNat),
      ("context", toString d.context)]

/-- The record text of a delivery. -/
def describe (d : Delivery) : String :=
  Text.record "Delivery"
    [("line", toString d.line), ("priority", toString d.priority.toNat),
      ("context", toString d.context)]

end Delivery

end Irq
