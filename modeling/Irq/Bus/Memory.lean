import Irq.Bus.Device

/-!
# Irq.Bus.Memory

Plain memory. Bytes never written are 0, and writes beyond its size are ignored. It keeps the cells
that were written, in ascending order of address, each address once.
-/

namespace Irq.Bus

/-- Plain memory. -/
structure Memory where
  /-- The number of bytes. -/
  size : Nat
  /-- The bytes written, by ascending address. -/
  cells : List (Nat × UInt8) := []

namespace Memory

/-- Puts a cell in its place, over an older cell of the same address. -/
def insert (address : Nat) (value : UInt8) : List (Nat × UInt8) → List (Nat × UInt8)
  | [] => [(address, value)]
  | (a, v) :: cells =>
    if address < a then (address, value) :: (a, v) :: cells
    else if address = a then (address, value) :: cells
    else (a, v) :: insert address value cells

/-- The byte at an address. -/
def read (m : Memory) (address : Nat) : UInt8 := (m.cells.lookup address).getD 0

/-- Writes the byte at an address. -/
def write (m : Memory) (address : Nat) (value : UInt8) : Memory :=
  if address < m.size then { m with cells := insert address value m.cells } else m

instance : Device Memory where
  load address m := (m.read address, m)
  store address value m := m.write address value
  name _ := "RAM"
  range m := (0, m.size)

/-- The first cell answers for its own address, and the others for the rest. -/
theorem lookup_cons_ite (a : Nat) (v : UInt8) (cells : List (Nat × UInt8)) (i : Nat) :
    ((a, v) :: cells).lookup i = if i = a then some v else cells.lookup i := by
  rw [List.lookup_cons]
  by_cases h : i = a
  · rw [if_pos h, h, beq_self_eq_true]
  · rw [if_neg h, beq_eq_false_iff_ne.mpr h]

/-- A cell that was put in its place answers for its address, and all others as before. -/
theorem lookup_insert (address : Nat) (value : UInt8) (cells : List (Nat × UInt8)) (i : Nat) :
    (insert address value cells).lookup i =
      if i = address then some value else cells.lookup i := by
  induction cells with
  | nil => rw [insert, lookup_cons_ite]
  | cons cell cells ih =>
    obtain ⟨a, v⟩ := cell
    unfold insert
    split
    · rw [lookup_cons_ite]
    · split
      · next heq =>
        rw [lookup_cons_ite, lookup_cons_ite, ← heq]
        by_cases h : i = address
        · rw [if_pos h, if_pos h]
        · rw [if_neg h, if_neg h, if_neg h]
      · next hne =>
        rw [lookup_cons_ite, lookup_cons_ite, ih]
        by_cases h : i = a
        · rw [if_pos h, if_pos h, if_neg (h ▸ Ne.symm hne)]
        · rw [if_neg h, if_neg h]

/-- Memory reads back what was last written there, and a write leaves every other byte alone. -/
theorem read_write (m : Memory) (address : Nat) (value : UInt8) (i : Nat) :
    (m.write address value).read i =
      if i = address ∧ address < m.size then value else m.read i := by
  unfold write
  split
  · next h =>
    simp only [read, lookup_insert]
    by_cases hi : i = address <;> simp [hi, h]
  · next h => simp [h]

end Memory

end Irq.Bus
