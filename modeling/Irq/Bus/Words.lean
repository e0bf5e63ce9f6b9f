import Irq.Bus.Access
import Mathlib.Algebra.Group.Nat.Defs

/-!
# Irq.Bus.Words

Words and their bytes. A word can be cut anywhere: its low bytes are the bytes of its remainder, and
its high bytes those of its quotient, by the power of 256 at the cut.
-/

namespace Irq.Bus

/-- **The bytes of a number give back its low part.** -/
@[simp] theorem ofBytes_bytesOf (n value : Nat) :
    ofBytes (bytesOf n value) = value % 256 ^ n := by
  induction n generalizing value with
  | zero => simp [bytesOf, ofBytes, Nat.mod_one]
  | succ n ih =>
    rw [bytesOf, ofBytes, ih, Nat.pow_succ', Nat.mod_mul]
    simp

/-- The bytes at the higher addresses count for more. -/
theorem ofBytes_append (as bs : List UInt8) :
    ofBytes (as ++ bs) = ofBytes as + 256 ^ as.length * ofBytes bs := by
  induction as with
  | nil => simp [ofBytes]
  | cons a as ih =>
    simp [ofBytes, ih, Nat.pow_succ', Nat.mul_add, Nat.mul_assoc, Nat.add_assoc]

/-- The bytes of a number are those of its low part and then those of its high part. -/
theorem bytesOf_add (m n value : Nat) :
    bytesOf (m + n) value = bytesOf m value ++ bytesOf n (value / 256 ^ m) := by
  induction m generalizing value with
  | zero => simp [bytesOf]
  | succ m ih =>
    rw [Nat.succ_add, bytesOf, ih, bytesOf, Nat.pow_succ', ← Nat.div_div_eq_div_mul]
    rfl

section
variable {δ : Type} [ByteAccess δ]

/-- **A wide write can be cut anywhere** into a write of the low part and one of the high part. -/
theorem storeBytes_bytesOf_add (m n offset value : Nat) (d : δ) :
    storeBytes (bytesOf (m + n) value) offset d =
      storeBytes (bytesOf n (value / 256 ^ m)) (offset + m)
        (storeBytes (bytesOf m value) offset d) := by
  rw [bytesOf_add, storeBytes_append, length_bytesOf]

/-- **A wide read can be cut anywhere** into a read of the low part and one of the high part. -/
theorem ofBytes_loadBytes_add (m n offset : Nat) (d : δ) :
    ofBytes (loadBytes (m + n) offset d).1 =
      ofBytes (loadBytes m offset d).1 +
        256 ^ m * ofBytes (loadBytes n (offset + m) (loadBytes m offset d).2).1 := by
  rw [loadBytes_add, ofBytes_append, length_loadBytes]

end

end Irq.Bus
