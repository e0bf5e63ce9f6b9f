/-!
# Irq.Bus.Access

Things that are read and written byte by byte, and the wider accesses built from that. A word is
stored little-endian: its lowest byte lies at the lowest address, and the bytes are accessed in
ascending order of address, in reads as in writes. A read may change what it reads.
-/

namespace Irq.Bus

/-- Something with bytes at addresses. -/
class ByteAccess (δ : Type) where
  /-- Reads the byte at an address. -/
  load : Nat → δ → UInt8 × δ
  /-- Writes the byte at an address. -/
  store : Nat → UInt8 → δ → δ

/-- The width of an access. -/
inductive Width where
  | byte
  | half
  | word
  | double
  deriving DecidableEq

/-- The number of bytes of an access. -/
def Width.bytes : Width → Nat
  | byte => 1
  | half => 2
  | word => 4
  | double => 8

/-! ## Words as bytes -/

/-- The `n` low bytes of a number, lowest first. -/
def bytesOf : Nat → Nat → List UInt8
  | 0, _ => []
  | n + 1, value => UInt8.ofNat value :: bytesOf n (value / 256)

/-- The number with the given bytes, lowest first. -/
def ofBytes : List UInt8 → Nat
  | [] => 0
  | b :: bs => b.toNat + 256 * ofBytes bs

/-- A number is written in as many bytes as are asked for. -/
@[simp] theorem length_bytesOf (n value : Nat) : (bytesOf n value).length = n := by
  induction n generalizing value with
  | zero => rfl
  | succ n ih => simp [bytesOf, ih]

/-- Bytes are the bytes of the number they make. -/
@[simp] theorem bytesOf_ofBytes (bs : List UInt8) : bytesOf bs.length (ofBytes bs) = bs := by
  induction bs with
  | nil => rfl
  | cons b bs ih =>
    have hb : b.toNat < 256 := b.toNat_lt
    have hhead : UInt8.ofNat (b.toNat + 256 * ofBytes bs) = b :=
      UInt8.toNat_inj.mp (by simp)
    have htail : (b.toNat + 256 * ofBytes bs) / 256 = ofBytes bs := by omega
    simp [bytesOf, ofBytes, hhead, htail, ih]

/-! ## Wide accesses -/

section
variable {δ : Type} [ByteAccess δ]

/-- Reads bytes at ascending addresses. -/
def loadBytes : Nat → Nat → δ → List UInt8 × δ
  | 0, _, d => ([], d)
  | n + 1, offset, d =>
    let (b, d) := ByteAccess.load offset d
    let (bs, d) := loadBytes n (offset + 1) d
    (b :: bs, d)

/-- Writes bytes at ascending addresses. -/
def storeBytes : List UInt8 → Nat → δ → δ
  | [], _, d => d
  | b :: bs, offset, d => storeBytes bs (offset + 1) (ByteAccess.store offset b d)

/-- Reads a word. -/
def load (width : Width) (offset : Nat) (d : δ) : Nat × δ :=
  let (bs, d) := loadBytes width.bytes offset d
  (ofBytes bs, d)

/-- Writes a word. Of the value as many low bytes are written as the access is wide. -/
def store (width : Width) (offset value : Nat) (d : δ) : δ :=
  storeBytes (bytesOf width.bytes value) offset d

/-- Bytes can be written in two goes. -/
theorem storeBytes_append (as bs : List UInt8) (offset : Nat) (d : δ) :
    storeBytes (as ++ bs) offset d =
      storeBytes bs (offset + as.length) (storeBytes as offset d) := by
  induction as generalizing offset d with
  | nil => rfl
  | cons a as ih => simp [storeBytes, ih, Nat.add_assoc, Nat.add_comm 1]

/-- Bytes can be read in two goes. -/
theorem loadBytes_add (m n offset : Nat) (d : δ) :
    loadBytes (m + n) offset d =
      ((loadBytes m offset d).1 ++ (loadBytes n (offset + m) (loadBytes m offset d).2).1,
        (loadBytes n (offset + m) (loadBytes m offset d).2).2) := by
  induction m generalizing offset d with
  | zero => simp [loadBytes]
  | succ m ih =>
    rw [Nat.succ_add]
    simp [loadBytes, ih, Nat.add_assoc, Nat.add_comm 1]

/-- As many bytes are read as are asked for. -/
@[simp] theorem length_loadBytes (n offset : Nat) (d : δ) :
    (loadBytes n offset d).1.length = n := by
  induction n generalizing offset d with
  | zero => rfl
  | succ n ih => simp [loadBytes, ih]

end

end Irq.Bus
