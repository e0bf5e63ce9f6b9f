import Irq.Bus.Memory
import Irq.Bus.Words
import Irq.Proofs.RegisterCells

/-!
# Irq.Proofs.WideAccess

Wide accesses as compositions of narrower ones, on anything with bytes, whatever its reads and
writes do to it. A write of bytes can be cut anywhere. A wide write is a write of the low half and
then one of the high half, a wide read likewise, and so down to single bytes, in the same order on
both sides. Where the bytes that an access touches keep what is written to them, a word that was
written is read back (`load_store`).
-/

namespace Irq.Bus

section
variable {δ : Type} [ByteAccess δ]

/-- Writes bytes one after another, each to an address of its own. -/
def storeAll (writes : List (Nat × UInt8)) (d : δ) : δ :=
  writes.foldl (fun d w => ByteAccess.store w.1 w.2 d) d

/-- The single writes of bytes at ascending addresses. -/
def writesOf : List UInt8 → Nat → List (Nat × UInt8)
  | [], _ => []
  | b :: bs, offset => (offset, b) :: writesOf bs (offset + 1)

/-- Whether something keeps what is written to the `n` bytes from an address on: after any writes to
them each byte reads as it was last written, whatever was written to the others since, and the read
changes nothing. Of bytes that were not written, nothing is said. -/
def Keeps (d : δ) (offset n : Nat) : Prop :=
  ∀ writes : List (Nat × UInt8), (∀ w ∈ writes, offset ≤ w.1 ∧ w.1 < offset + n) →
    ∀ (i : Nat) (b : UInt8), lastWritten i writes = some b →
      ByteAccess.load i (storeAll writes d) = (b, storeAll writes d)

/-! ## Halves -/

/-- Only the low bytes of a number are written. -/
theorem bytesOf_mod (n value : Nat) : bytesOf n (value % 256 ^ n) = bytesOf n value := by
  have hback := bytesOf_ofBytes (bytesOf n value)
  rwa [ofBytes_bytesOf, length_bytesOf] at hback

/-- **A wide write is two narrower ones**, first of the low half and then of the high half. -/
theorem store_eq_halves (wide narrow : Width)
    (hbytes : wide.bytes = narrow.bytes + narrow.bytes)
    (offset value : Nat) (d : δ) :
    store wide offset value d =
      store narrow (offset + narrow.bytes) (value / 256 ^ narrow.bytes)
        (store narrow offset (value % 256 ^ narrow.bytes) d) := by
  unfold store
  rw [hbytes, storeBytes_bytesOf_add, bytesOf_mod]

/-- **A wide read is two narrower ones**, first of the low half and then of the high half, where the
second reads what the first has left behind. -/
theorem load_eq_halves (wide narrow : Width)
    (hbytes : wide.bytes = narrow.bytes + narrow.bytes)
    (offset : Nat) (d : δ) :
    load wide offset d =
      let (low, d) := load narrow offset d
      let (high, d) := load narrow (offset + narrow.bytes) d
      (low + 256 ^ narrow.bytes * high, d) := by
  simp only [load, hbytes]
  rw [ofBytes_loadBytes_add, loadBytes_add]

/-! ## Bytes that are kept -/

/-- To write bytes is to make their single writes. -/
theorem storeBytes_eq_storeAll (bs : List UInt8) (offset : Nat) (d : δ) :
    storeBytes bs offset d = storeAll (writesOf bs offset) d := by
  induction bs generalizing offset d with
  | nil => rfl
  | cons b bs ih => exact ih (offset + 1) (ByteAccess.store offset b d)

theorem within_of_mem_writesOf {bs : List UInt8} {offset : Nat} {w : Nat × UInt8}
    (hw : w ∈ writesOf bs offset) : offset ≤ w.1 ∧ w.1 < offset + bs.length := by
  induction bs generalizing offset with
  | nil => cases hw
  | cons b bs ih =>
    rw [List.length_cons]
    rcases List.mem_cons.mp hw with rfl | hrest
    · exact ⟨Nat.le_refl _, Nat.lt_add_of_pos_right (Nat.succ_pos _)⟩
    · have hwithin := ih hrest
      omega

/-- The first write is the last to its address if no other is. -/
theorem lastWritten_cons (w : Nat × UInt8) (writes : List (Nat × UInt8)) (i : Nat) :
    lastWritten i (w :: writes) =
      (lastWritten i writes).or (if w.1 = i then some w.2 else none) := by
  unfold lastWritten
  by_cases hw : w.1 = i
  · cases hlast : (writes.filter fun w => w.1 == i).getLast? <;>
      simp [hw, hlast, List.getLast?_cons]
  · simp [hw]

/-- What was last written to an address was written by one of the writes. -/
theorem exists_mem_of_lastWritten {writes : List (Nat × UInt8)} {i : Nat} {b : UInt8}
    (hlast : lastWritten i writes = some b) : ∃ w ∈ writes, w.1 = i := by
  obtain ⟨w, hw, -⟩ := Option.map_eq_some_iff.mp hlast
  obtain ⟨hmem, hi⟩ := List.mem_filter.mp (List.mem_of_getLast? hw)
  exact ⟨w, hmem, beq_iff_eq.mp hi⟩

/-- Of bytes at ascending addresses each is the one last written to its address: those behind it
have larger addresses, so none of them overwrites it. -/
theorem lastWritten_writesOf {bs : List UInt8} {i : Nat} (hi : i < bs.length) (offset : Nat) :
    lastWritten (offset + i) (writesOf bs offset) = some bs[i] := by
  induction bs generalizing offset i with
  | nil => cases hi
  | cons b bs ih =>
    rw [writesOf, lastWritten_cons]
    cases i with
    | zero =>
      have hrest : lastWritten (offset + 0) (writesOf bs (offset + 1)) = none := by
        rw [Option.eq_none_iff_forall_ne_some]
        intro b' hb'
        obtain ⟨w, hw, hi⟩ := exists_mem_of_lastWritten hb'
        exact Nat.ne_of_gt (within_of_mem_writesOf hw).1 hi
      rw [hrest, Option.none_or, if_pos (Nat.add_zero offset).symm, List.getElem_cons_zero]
    | succ i =>
      have hrest := ih (Nat.lt_of_succ_lt_succ hi) (offset + 1)
      rw [Nat.add_right_comm] at hrest
      rw [Nat.add_succ, hrest, Option.some_or, List.getElem_cons_succ]

/-- Bytes that read without changing anything are read together. -/
theorem loadBytes_of_load {bs : List UInt8} {offset : Nat} {d : δ}
    (hload : ∀ (i : Nat) (hi : i < bs.length), ByteAccess.load (offset + i) d = (bs[i], d)) :
    loadBytes bs.length offset d = (bs, d) := by
  induction bs generalizing offset with
  | nil => rfl
  | cons b bs ih =>
    have hhead := hload 0 (Nat.succ_pos _)
    have htail := @ih (offset + 1) fun i hi => by
      rw [Nat.add_right_comm]
      exact hload (i + 1) (Nat.succ_lt_succ hi)
    rw [Nat.add_zero] at hhead
    simp only [List.length_cons, loadBytes, hhead, htail, List.getElem_cons_zero]

/-- **Bytes that were written are read back**, all at once, where they are kept. -/
theorem loadBytes_storeBytes {d : δ} (bs : List UInt8) {offset : Nat}
    (hkeeps : Keeps d offset bs.length) :
    loadBytes bs.length offset (storeBytes bs offset d) = (bs, storeBytes bs offset d) := by
  rw [storeBytes_eq_storeAll]
  refine loadBytes_of_load fun i hi => ?_
  exact hkeeps _ (fun w hw => within_of_mem_writesOf hw) _ _ (lastWritten_writesOf hi offset)

/-- **A word that was written is read back**, where its bytes are kept. -/
theorem load_store {width : Width} {d : δ} {offset value : Nat}
    (hkeeps : Keeps d offset width.bytes) (hvalue : value < 256 ^ width.bytes) :
    load width offset (store width offset value d) = (value, store width offset value d) := by
  have hback := loadBytes_storeBytes (bytesOf width.bytes value)
    (show Keeps d offset (bytesOf width.bytes value).length by rwa [length_bytesOf])
  rw [length_bytesOf] at hback
  simp only [load, store, hback, ofBytes_bytesOf, Nat.mod_eq_of_lt hvalue]

/-- What was read is written back without a trace, where this is so of each byte and reading changes
nothing. -/
theorem storeBytes_loadBytes {d : δ} (hload : ∀ i, (ByteAccess.load i d).2 = d)
    (hstore : ∀ i, ByteAccess.store i (ByteAccess.load i d).1 d = d) (n offset : Nat) :
    (loadBytes n offset d).2 = d ∧ storeBytes (loadBytes n offset d).1 offset d = d := by
  induction n generalizing offset with
  | zero => exact ⟨rfl, rfl⟩
  | succ n ih => simp only [loadBytes, storeBytes, hload, hstore, ih, and_self]

/-- A number of some bytes fits into as many. -/
theorem ofBytes_lt (bs : List UInt8) : ofBytes bs < 256 ^ bs.length := by
  rw [← bytesOf_ofBytes bs, ofBytes_bytesOf, length_bytesOf]
  exact Nat.mod_lt _ (Nat.pow_pos (by decide))

/-- The same of words, which fit into their width. -/
theorem store_load {d : δ} (hload : ∀ i, (ByteAccess.load i d).2 = d)
    (hstore : ∀ i, ByteAccess.store i (ByteAccess.load i d).1 d = d) (width : Width)
    (offset : Nat) :
    (load width offset d).1 < 2 ^ (8 * width.bytes) ∧ (load width offset d).2 = d ∧
      store width offset (load width offset d).1 d = d := by
  obtain ⟨hsame, hback⟩ := storeBytes_loadBytes hload hstore width.bytes offset
  have hlength : (loadBytes width.bytes offset d).1.length = width.bytes := length_loadBytes ..
  have hbytes := bytesOf_ofBytes (loadBytes width.bytes offset d).1
  have hlt := ofBytes_lt (loadBytes width.bytes offset d).1
  rw [hlength] at hbytes hlt
  refine ⟨?_, hsame, ?_⟩
  · rw [Nat.pow_mul]
    exact hlt
  · simp only [store, load, hbytes, hback]

/-- **Wide accesses are made of narrower ones**, whatever reads and writes of bytes do. Bytes are
written in two goes or in one. A wide write is a write of the low half and one of the high half,
and so down to bytes; a wide read takes up first the low half and then the high half, as the first
read has left it. Where the bytes touched keep what is written to them, a word is read back. -/
theorem wide_accesses_compose (offset : Nat) (d : δ) :
    (∀ as bs : List UInt8, storeBytes (as ++ bs) offset d =
      storeBytes bs (offset + as.length) (storeBytes as offset d)) ∧
    (∀ value : Nat, store .double offset value d =
      store .word (offset + 4) (value / 2 ^ 32) (store .word offset (value % 2 ^ 32) d)) ∧
    (∀ value : Nat, store .word offset value d =
      store .half (offset + 2) (value / 2 ^ 16) (store .half offset (value % 2 ^ 16) d)) ∧
    (∀ value : Nat, store .half offset value d =
      ByteAccess.store (offset + 1) (UInt8.ofNat (value / 2 ^ 8))
        (ByteAccess.store offset (UInt8.ofNat (value % 2 ^ 8)) d)) ∧
    (load .double offset d =
      let (low, d) := load .word offset d
      let (high, d) := load .word (offset + 4) d
      (low + 2 ^ 32 * high, d)) ∧
    (load .word offset d =
      let (low, d) := load .half offset d
      let (high, d) := load .half (offset + 2) d
      (low + 2 ^ 16 * high, d)) ∧
    (load .half offset d =
      let (low, d) := ByteAccess.load offset d
      let (high, d) := ByteAccess.load (offset + 1) d
      (low.toNat + 2 ^ 8 * high.toNat, d)) ∧
    ∀ (width : Width) (value : Nat), value < 2 ^ (8 * width.bytes) → Keeps d offset width.bytes →
      load width offset (store width offset value d) = (value, store width offset value d) := by
  refine ⟨fun as bs => storeBytes_append as bs offset d,
    fun value => store_eq_halves .double .word rfl offset value d,
    fun value => store_eq_halves .word .half rfl offset value d,
    fun value => store_eq_halves .half .byte rfl offset value d,
    load_eq_halves .double .word rfl offset d,
    load_eq_halves .word .half rfl offset d,
    load_eq_halves .half .byte rfl offset d, ?_⟩
  intro width value hvalue hkeeps
  rw [Nat.pow_mul] at hvalue
  exact load_store hkeeps hvalue

end

/-- Priorities of which all bits exist are kept. -/
theorem keeps_priorities {σ : Type} (b : RegisterBlock σ) (id : Nat) {n : Nat}
    (hmask : b.controller.table.priorityMask = 255) (hlines : id + n ≤ b.controller.table.size)
    (hbank : id + n ≤ Registers.bankSize) : Keeps b (Registers.priorityBank + id) n := by
  intro writes hwithin i value hlast
  obtain ⟨w, hw, rfl⟩ := exists_mem_of_lastWritten hlast
  obtain ⟨line, hline⟩ := Nat.exists_eq_add_of_le (hwithin w hw).1
  have hlt := (hwithin w hw).2
  have hmapped : (Registers.Register.line .priority (id + line)).Mapped b.controller.table.size
      b.controller.thresholds.size := ⟨by omega, by omega⟩
  have hregister : b.controller.register? w.1 = some (.line .priority (id + line)) := by
    rw [hline, Nat.add_assoc]
    exact Controller.register?_offset hmapped
  have hread := Controller.readByte_storeAll b writes w.1
  rw [hlast, hregister, Option.elim_some, Option.elim_some, hmask] at hread
  exact Prod.ext (hread.trans UInt8.and_neg_one) rfl

/-- **Plain memory reads back the last write to a byte**, and any other byte as it was. -/
theorem read_storeAll {m : Memory} {writes : List (Nat × UInt8)}
    (hwithin : ∀ w ∈ writes, w.1 < m.size) (i : Nat) :
    (storeAll writes m).read i = (lastWritten i writes).getD (m.read i) := by
  induction writes generalizing m with
  | nil => rfl
  | cons w writes ih =>
    have hw := hwithin w List.mem_cons_self
    have hsize : (m.write w.1 w.2).size = m.size := by simp [Memory.write, hw]
    have hrest := @ih (m.write w.1 w.2) fun w' hw' =>
      hsize ▸ hwithin w' (List.mem_cons_of_mem w hw')
    rw [lastWritten_cons]
    refine hrest.trans ?_
    rw [Memory.read_write]
    cases lastWritten i writes with
    | some b => rfl
    | none =>
      by_cases hi : w.1 = i
      · subst hi
        simp [hw]
      · simp [hi, Ne.symm hi]

/-- The bytes of plain memory are kept. -/
theorem keeps_memory {m : Memory} {offset n : Nat} (hsize : offset + n ≤ m.size) :
    Keeps m offset n := by
  intro writes hwithin i value hlast
  have hread := read_storeAll (fun w hw => Nat.lt_of_lt_of_le (hwithin w hw).2 hsize) i
  rw [hlast, Option.getD_some] at hread
  exact Prod.ext hread rfl

/-- Eight priorities written at once, one for each line of a controller, are read back at once, and
the fourth byte is the priority of the fourth line. -/
theorem wide_accesses_compose_of_priorities :
    let b := RegisterBlock.ofGeometry { lines := 8 } ()
    let after := store .double 0xC00 0x8877665544332211 b
    0x8877665544332211 < 2 ^ (8 * Width.double.bytes) ∧ Keeps b 0xC00 Width.double.bytes ∧
      load .double 0xC00 after = (0x8877665544332211, after) ∧
      after.controller.table.lines[3]?.map Line.priority = some 0x44 := by
  intro b after
  have hvalue : 0x8877665544332211 < 2 ^ (8 * Width.double.bytes) := by decide
  have hkeeps : Keeps b 0xC00 Width.double.bytes := keeps_priorities b 0 rfl (by decide)
    (by decide)
  obtain ⟨-, -, -, -, -, -, -, hback⟩ := wide_accesses_compose 0xC00 b
  exact ⟨hvalue, hkeeps, hback .double _ hvalue hkeeps, by decide +kernel⟩

end Irq.Bus
