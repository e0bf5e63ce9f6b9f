/-!
# Irq.Attributes

How an interrupt line reads its input: whether it latches transitions or follows the level, and
which sense of the input counts as asserted. Both are packed into one attribute byte, and the two
directions of that encoding are inverse up to the bits that carry meaning.
-/

namespace Irq

/-- How a line latches a request. -/
inductive Trigger where
  /-- A transition of the input latches one request, which is used up by its service. -/
  | edge
  /-- The request follows the input and outlives its service. -/
  | level
  deriving DecidableEq, Inhabited

/-- Which sense of the input counts as asserted. -/
inductive Polarity where
  /-- Active high, rising edge. -/
  | positive
  /-- Active low, falling edge. -/
  | negative
  deriving DecidableEq, Inhabited

namespace Trigger

/-- The written name of a trigger mode. -/
def name : Trigger → String
  | edge => "Edge"
  | level => "Level"

/-- The trigger modes by their written names. -/
def named : List (String × Trigger) := [("Edge", edge), ("Level", level)]

end Trigger

namespace Polarity

/-- The written name of a polarity. -/
def name : Polarity → String
  | positive => "Positive"
  | negative => "Negative"

/-- The polarities by their written names. -/
def named : List (String × Polarity) := [("Positive", positive), ("Negative", negative)]

/-- Whether a raw signal is the asserted one. -/
def asserts : Polarity → Bool → Bool
  | positive, signal => signal
  | negative, signal => !signal

end Polarity

/-- Trigger mode and polarity of a line. -/
structure Attributes where
  trigger : Trigger := .level
  polarity : Polarity := .positive
  deriving DecidableEq, Inhabited

namespace Attributes

/-- The bit that selects edge triggering. -/
def edgeBit : UInt8 := 0x02

/-- The bit that selects positive polarity. -/
def positiveBit : UInt8 := 0x04

/-- The bits that carry meaning; all others read back as zero. -/
def mask : UInt8 := edgeBit ||| positiveBit

/-- The attributes an attribute byte selects. Bits outside `mask` are ignored. -/
def ofByte (b : UInt8) : Attributes where
  trigger := if b &&& edgeBit = 0 then .level else .edge
  polarity := if b &&& positiveBit = 0 then .negative else .positive

/-- The attribute byte of a line. -/
def toByte (a : Attributes) : UInt8 :=
  (match a.trigger with | .edge => edgeBit | .level => 0) |||
    (match a.polarity with | .positive => positiveBit | .negative => 0)

/-- Attributes are read back from their byte. -/
@[simp] theorem ofByte_toByte (a : Attributes) : ofByte a.toByte = a := by
  obtain ⟨t, p⟩ := a
  cases t <;> cases p <;> decide

/-- A fact about every byte follows from its 256 instances. -/
theorem forall_byte {P : UInt8 → Prop} (h : ∀ n : Fin 256, P (UInt8.ofNat n)) (b : UInt8) :
    P b := by
  have hb := h ⟨b.toNat, b.toNat_lt⟩
  rwa [UInt8.ofNat_toNat] at hb

/-- Reading an attribute byte back keeps exactly the bits that carry meaning. -/
@[simp] theorem toByte_ofByte (b : UInt8) : (ofByte b).toByte = b &&& mask :=
  forall_byte (P := fun b => (ofByte b).toByte = b &&& mask) (by decide +kernel) b

/-- The bits outside the mask say nothing. -/
@[simp] theorem ofByte_and_mask (b : UInt8) : ofByte (b &&& mask) = ofByte b := by
  rw [← toByte_ofByte, ofByte_toByte]

end Attributes

end Irq
