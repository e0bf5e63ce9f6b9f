import Irq.Bus.Access

/-!
# Irq.Bus.Device

What hangs on a bus: a name, a place in the address space, bytes at the addresses of that place, and
a part in every cycle of the bus. A device that says nothing else takes no part in the cycle and is
no interrupt controller.
-/

namespace Irq.Bus

/-- A device on a bus. -/
class Device (δ : Type) extends ByteAccess δ where
  /-- The name of the device. -/
  name : δ → String
  /-- The base and the length of its place in the address space. -/
  range : δ → Nat × Nat
  /-- One cycle of the bus; tells whether the device requests an interrupt. -/
  tick : δ → Bool × δ := fun d => (false, d)
  /-- Whether the device is an interrupt controller. -/
  isController : δ → Bool := fun _ => false

end Irq.Bus
