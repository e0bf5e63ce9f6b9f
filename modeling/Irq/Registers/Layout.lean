/-!
# Irq.Registers.Layout

The addresses of the register window. Four banks hold one byte for each line; behind them every
context has a page, which starts with its threshold.
-/

namespace Irq.Registers

/-- The length of a bank: the bytes it has for lines. -/
def bankSize : Nat := 0x400

/-- The bank of the pending bits. -/
def pendingBank : Nat := 0x000

/-- The bank of the enable bits. -/
def enableBank : Nat := 0x400

/-- The bank of the attribute bytes. -/
def attributeBank : Nat := 0x800

/-- The bank of the priorities. -/
def priorityBank : Nat := 0xC00

/-- The page of the first context. -/
def thresholdBase : Nat := 0x1000

/-- The length of a context's page. -/
def contextStride : Nat := 0x1000

/-- The length of the window of a controller with that many contexts. -/
def windowSize (contexts : Nat) : Nat := thresholdBase + contexts * contextStride

/-- The most lines that a bank can address. -/
def maxLines : Nat := bankSize

/-- The most contexts that keep the window within 64 KiB. -/
def maxContexts : Nat := 15

/-- The bits of a priority register. -/
def priorityRegisterBits : Nat := 8

/-- The window of as many contexts as are allowed takes up 64 KiB at most. -/
theorem windowSize_le {contexts : Nat} (h : contexts ≤ maxContexts) :
    windowSize contexts ≤ 0x10000 := by
  simp only [windowSize, maxContexts, thresholdBase, contextStride] at *
  omega

end Irq.Registers
