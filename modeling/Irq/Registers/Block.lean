import Irq.Bus.Device
import Irq.Controller
import Irq.Registers.Map

/-!
# Irq.Registers.Block

The registers of a controller as bytes on a bus. A read shows the state behind the register and
changes nothing. A write is a command to the line table or a new threshold; nothing else can be done
through a register. Empty addresses read as 0 and ignore writes.
-/

namespace Irq

namespace Registers

/-- What the register of a line in a bank shows. -/
def Bank.read (l : Line) : Bank → UInt8
  | pending => l.pending.toUInt8
  | enable => l.enabled.toUInt8
  | attributes => l.attributes.toByte
  | priority => l.priority

/-- The command that a write to the register of a line amounts to. -/
def Bank.write (id : Nat) (value : UInt8) : Bank → Command
  | pending => if value = 0 then .clearPending id else .setPending id
  | enable => if value &&& 1 = 0 then .disable id else .enable id
  | attributes => .setAttributes id (value &&& Attributes.mask)
  | priority => .setPriority id value

end Registers

namespace Controller

open Registers

variable {σ : Type}

/-- The register of the controller at an address. -/
def register? (c : Controller σ) (offset : Nat) : Option Register :=
  decode c.table.size c.thresholds.size offset

/-- What a register shows. -/
def readRegister (c : Controller σ) : Register → UInt8
  | .line bank id => (c.table.lines[id]?.map (Bank.read · bank)).getD 0
  | .threshold context => (c.thresholds.levels[context]?).getD 0

/-- Writes a register. -/
def writeRegister (c : Controller σ) (value : UInt8) : Register → Controller σ
  | .line bank id => (c.command (bank.write id value)).2
  | .threshold context => (c.setThreshold context value).2

/-- The byte at an address. -/
def readByte (c : Controller σ) (offset : Nat) : UInt8 :=
  (c.register? offset).elim 0 c.readRegister

/-- Writes the byte at an address. -/
def writeByte (c : Controller σ) (offset : Nat) (value : UInt8) : Controller σ :=
  (c.register? offset).elim c (c.writeRegister value)

instance : Bus.ByteAccess (Controller σ) where
  load offset c := (c.readByte offset, c)
  store offset value c := c.writeByte offset value

/-- A read of a byte changes nothing. -/
@[simp] theorem load_eq (c : Controller σ) (offset : Nat) :
    Bus.ByteAccess.load offset c = (c.readByte offset, c) := rfl

@[simp] theorem store_eq (c : Controller σ) (offset : Nat) (value : UInt8) :
    Bus.ByteAccess.store offset value c = c.writeByte offset value := rfl

/-- A read of any length changes nothing. -/
@[simp] theorem snd_loadBytes (c : Controller σ) (n offset : Nat) :
    (Bus.loadBytes n offset c).2 = c := by
  induction n generalizing offset with
  | zero => rfl
  | succ n ih => simp [Bus.loadBytes, ih]

end Controller

/-- A controller on a bus. -/
structure RegisterBlock (σ : Type) where
  /-- Where the register window lies. -/
  base : Nat
  /-- The controller behind the registers. -/
  controller : Controller σ

namespace RegisterBlock

variable {σ : Type}

/-- The register block that a geometry describes. -/
def ofGeometry (g : Geometry) (memory : σ) : RegisterBlock σ where
  base := g.baseAddress
  controller := .ofGeometry g memory

instance : Bus.Device (RegisterBlock σ) where
  load offset b := (b.controller.readByte offset, b)
  store offset value b := { b with controller := b.controller.writeByte offset value }
  name _ := "CLIC"
  range b := (b.base, Registers.windowSize b.controller.thresholds.size)
  tick b := (b.controller.isRequesting, b)
  isController _ := true

/-- The request that the block presents to a context. -/
def output (b : RegisterBlock σ) (context : Nat) : Except Error (Option Delivery) :=
  b.controller.pendingRequest context

/-- Takes the request presented to a context, which services it. -/
def claim (h : Handler σ) (b : RegisterBlock σ) (context : Nat) :
    Except Error (Option Delivery) × RegisterBlock σ :=
  let (result, controller) := b.controller.poll h context
  (result, { b with controller })

/-- The record text of a register block. -/
def describe (b : RegisterBlock σ) : String :=
  Text.record "ClicDevice"
    [("base_addr", toString b.base), ("clic", b.controller.describe)]

end RegisterBlock

end Irq
