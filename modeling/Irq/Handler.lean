import Irq.Delivery
import Irq.LineTable.Access

/-!
# Irq.Handler

The environment's answer to a delivery. A handler has a memory of its own and is shown the delivery
and the line table; what it wants done to the table it hands back as commands. It can therefore
look at everything and change the table only as any client may.
-/

namespace Irq

/-- A receiver of deliveries with memory `σ`. -/
structure Handler (σ : Type) where
  /-- The memory after a delivery, and the commands given to the line table. -/
  deliver : σ → Delivery → LineTable → σ × List Command

namespace Handler

variable {σ : Type}

/-- Delivers to a handler and carries out its commands. -/
def handle (h : Handler σ) (memory : σ) (d : Delivery) (t : LineTable) : σ × LineTable :=
  let (memory, commands) := h.deliver memory d t
  (memory, t.applyAll commands)

/-- The handler that ignores deliveries. -/
def passive : Handler σ where
  deliver memory _ _ := (memory, [])

/-- The handler that lets another handler answer and then withdraws the request of the delivered
line. Under it a level line is serviced once per request, like an edge line. -/
def acknowledging (h : Handler σ) : Handler σ where
  deliver memory d t :=
    let (memory, commands) := h.deliver memory d t
    (memory, commands ++ [.clearPending d.line])

/-- No handler changes the size of the table or its clock. -/
theorem size_handle (h : Handler σ) (memory : σ) (d : Delivery) (t : LineTable) :
    (h.handle memory d t).2.size = t.size := by simp [handle]

theorem now_handle (h : Handler σ) (memory : σ) (d : Delivery) (t : LineTable) :
    (h.handle memory d t).2.now = t.now := by simp [handle]

end Handler

end Irq
