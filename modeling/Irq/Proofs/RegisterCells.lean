import Irq.Proofs.Independence

/-!
# Irq.Proofs.RegisterCells

The registers of a controller are cells that do not touch one another. A byte that is written is
kept as far as the register has bits for it (`Register.keep`), and no other register shows a trace
of it, although the four registers of a line share one record. A write is an operation of the client
that owns what lies behind the register, so what it leaves alone is what such an operation leaves
alone; with a write to an address without register nothing happens. After any writes, then, each
register shows what it has kept of the last byte written to it (`registers_are_cells`).
-/

namespace Irq

namespace Registers

/-- What the register of a line keeps of a byte, where the mask tells the priority bits that exist. -/
def Bank.keep (mask value : UInt8) : Bank → UInt8
  | pending => if value = 0 then 0 else 1
  | enable => value &&& 1
  | attributes => value &&& 0x06
  | priority => value &&& mask

/-- What a register keeps of a byte written to it. -/
def Register.keep (mask value : UInt8) : Register → UInt8
  | line bank _ => bank.keep mask value
  | threshold _ => value

/-- The client that owns what lies behind a register. -/
def Register.client : Register → Client
  | line _ id => .line id
  | threshold context => .context context

/-- The operation that a write to a register amounts to. -/
def Register.operation (value : UInt8) : Register → Operation
  | line bank id => .access (.command (bank.write id value))
  | threshold context => .setThreshold context value

end Registers

/-- The byte last written to an address, if one was. -/
def lastWritten (offset : Nat) (writes : List (Nat × UInt8)) : Option UInt8 :=
  (writes.filter fun w => w.1 == offset).getLast?.map Prod.snd

/-- Writes bytes one after another, each to an address of its own. -/
def RegisterBlock.storeAll {σ : Type} (b : RegisterBlock σ) (writes : List (Nat × UInt8)) :
    RegisterBlock σ :=
  writes.foldl (fun b w => Bus.ByteAccess.store w.1 w.2 b) b

/-- Whether a controller has changed behind one register alone: in the line or the threshold that
the register is of, but not in the signal last sampled there, and in a stamp only with the pending
bit. -/
structure Controller.ChangedAt {σ : Type} (r : Registers.Register) (c d : Controller σ) : Prop where
  size : d.table.size = c.table.size
  mask : d.table.priorityMask = c.table.priorityMask
  now : d.table.now = c.table.now
  contexts : d.thresholds.size = c.thresholds.size
  record : d.record = c.record
  memory : d.memory = c.memory
  line : ∀ id : Nat, r.client ≠ .line id → d.table.lines[id]? = c.table.lines[id]?
  level : ∀ i : Nat, r.client ≠ .context i → d.thresholds.levels[i]? = c.thresholds.levels[i]?
  input : ∀ id : Nat, d.table.lines[id]?.map Line.input = c.table.lines[id]?.map Line.input
  since : ∀ id : Nat, r ≠ .line .pending id →
    d.table.lines[id]?.map Line.since = c.table.lines[id]?.map Line.since

namespace Registers

/-! ## The four registers of a line -/

/-- A write to a register of a line is addressed to this line. -/
@[simp] theorem Bank.line?_write (bank : Bank) (id : Nat) (value : UInt8) :
    (bank.write id value).line? = some id := by
  cases bank with
  | pending | enable =>
    simp only [write]
    split <;> rfl
  | attributes | priority => rfl

/-- What a write to a register makes of its line. -/
theorem Bank.effect_write (t : LineTable) (l : Line) (bank : Bank) (id : Nat) (value : UInt8) :
    t.effect (bank.write id value) l =
      match bank with
      | pending => if value = 0 then l.lower else l.raise t.now
      | enable => { l with enabled := value &&& 1 != 0 }
      | attributes => { l with attributes := .ofByte value }
      | priority => { l with priority := t.maskPriority value } := by
  cases bank with
  | pending | enable =>
    simp only [write]
    split <;> simp_all [LineTable.effect]
  | attributes => simp [write, LineTable.effect]
  | priority => rfl

theorem toUInt8_and_one_ne_zero (value : UInt8) : (value &&& 1 != 0).toUInt8 = value &&& 1 :=
  Attributes.forall_byte (P := fun value => (value &&& 1 != 0).toUInt8 = value &&& 1)
    (by decide +kernel) value

/-- A register shows what it has kept of the byte written to it. -/
theorem Bank.read_write (t : LineTable) (l : Line) (bank : Bank) (id : Nat) (value : UInt8) :
    bank.read (t.effect (bank.write id value) l) = bank.keep t.priorityMask value := by
  rw [effect_write]
  cases bank with
  | pending => by_cases hv : value = 0 <;> simp [keep, read, hv, Bool.toUInt8]
  | enable => exact toUInt8_and_one_ne_zero value
  | attributes => exact Attributes.toByte_ofByte value
  | priority => rfl

/-- The other registers of the line show what they did. -/
theorem Bank.read_write_of_ne (t : LineTable) (l : Line) {bank other : Bank} (hne : bank ≠ other)
    (id : Nat) (value : UInt8) :
    other.read (t.effect (bank.write id value) l) = other.read l := by
  rw [effect_write]
  cases bank with
  | pending =>
    by_cases hv : value = 0 <;> cases other <;> simp_all [read, Line.lower]
  | enable | attributes | priority => cases other <;> simp_all [read]

/-- The signal last sampled is behind no register, and the stamp only behind that of the pending
bit. -/
theorem Bank.input_write (t : LineTable) (l : Line) (bank : Bank) (id : Nat) (value : UInt8) :
    (t.effect (bank.write id value) l).input = l.input := by
  rw [effect_write]
  cases bank with
  | pending => by_cases hv : value = 0 <;> simp [hv, Line.lower]
  | enable | attributes | priority => rfl

/-- A write to any register but that of the request leaves the stamp. -/
theorem Bank.since_write (t : LineTable) (l : Line) {bank : Bank} (hbank : bank ≠ .pending)
    (id : Nat) (value : UInt8) : (t.effect (bank.write id value) l).since = l.since := by
  rw [effect_write]
  cases bank with
  | pending => exact absurd rfl hbank
  | enable | attributes | priority => rfl

end Registers

namespace Controller

open Registers

variable {σ : Type} {c : Controller σ}

/-! ## One write -/

/-- A write to a register is the operation of the client that owns what lies behind it. -/
theorem writeRegister_eq_step (h : Handler σ) (c : Controller σ) (value : UInt8) (r : Register) :
    c.writeRegister value r = (c.step h (r.operation value)).2 := by
  cases r <;> rfl

/-- A write to a register is made by the client of the register. -/
theorem client?_operation (value : UInt8) (r : Register) :
    (r.operation value).client? = some r.client := by
  cases r with
  | line bank id => simp [Register.operation, Operation.client?, Access.line?, Register.client]
  | threshold context => rfl

/-- A write to a register is nothing to the clients that own nothing behind it. -/
theorem sameTo_writeRegister (c : Controller σ) (value : UInt8) {r : Register} {k : Client}
    (hne : r.client ≠ k) : SameTo k (c.writeRegister value r) c := by
  rw [writeRegister_eq_step .passive]
  exact SameTo.step_other (client?_operation value r) hne

/-- A write to a register leaves the record and the memory of the handler. -/
theorem rest_writeRegister (c : Controller σ) (value : UInt8) (r : Register) :
    (c.writeRegister value r).record = c.record ∧ (c.writeRegister value r).memory = c.memory := by
  rw [writeRegister_eq_step .passive]
  exact rest_step c (client?_operation value r)

/-- What lines and contexts there are, is not for a write to change. -/
theorem register?_writeRegister (c : Controller σ) (value : UInt8) (r : Register) (offset : Nat) :
    (c.writeRegister value r).register? offset = c.register? offset := by
  cases r with
  | line bank id => simp [register?, writeRegister, command]
  | threshold context =>
    simp [register?, writeRegister, table_setThreshold, size_setThreshold]

/-- A register shows what it has kept of the byte written to it. -/
theorem readRegister_writeRegister {r : Register}
    (hr : r.Mapped c.table.size c.thresholds.size) (value : UInt8) :
    (c.writeRegister value r).readRegister r = r.keep c.table.priorityMask value := by
  cases r with
  | line bank id =>
    have hconcerns : (bank.write id value).concerns id = true := by simp [Command.concerns]
    have hline : id < c.table.lines.size := hr.1
    simp [readRegister, writeRegister, command, LineTable.getElem?_apply, hconcerns, hline,
      Bank.read_write, Register.keep]
  | threshold context =>
    have hcontext : context < c.thresholds.levels.size := hr
    simp [readRegister, writeRegister, getElem?_setThreshold, hcontext, Register.keep]

/-- All other registers show what they did. -/
theorem readRegister_writeRegister_of_ne {r other : Register} (hne : r ≠ other)
    (value : UInt8) : (c.writeRegister value r).readRegister other = c.readRegister other := by
  by_cases hclient : r.client = other.client
  · -- Two registers of one client are those of two banks for one line.
    cases r with
    | threshold context => cases other <;> simp_all [Register.client]
    | line bank id =>
      cases other with
      | threshold context => simp [Register.client] at hclient
      | line other id' =>
        obtain rfl : id = id' := by simpa [Register.client] using hclient
        have hbank : bank ≠ other := fun h => hne (h ▸ rfl)
        have hconcerns : (bank.write id value).concerns id = true := by simp [Command.concerns]
        simp [readRegister, writeRegister, command, LineTable.getElem?_apply, hconcerns,
          Function.comp_def, Bank.read_write_of_ne _ _ hbank]
  · have hsame := sameTo_writeRegister c value hclient
    cases other with
    | line bank id => simp [readRegister, hsame.line id rfl]
    | threshold context => simp [readRegister, hsame.level context rfl]

/-- A write to a register changes what lies behind it, and nothing else. -/
theorem changedAt_writeRegister (c : Controller σ) (value : UInt8) (r : Register) :
    c.ChangedAt r (c.writeRegister value r) := by
  obtain ⟨hrecord, hmemory⟩ := rest_writeRegister c value r
  have hline (id : Nat) (hid : r.client ≠ .line id) := (sameTo_writeRegister c value hid).line id rfl
  have hlevel (i : Nat) (hi : r.client ≠ .context i) :=
    (sameTo_writeRegister c value hi).level i rfl
  cases r with
  | line bank id =>
    have hget (i : Nat) := LineTable.getElem?_apply c.table (bank.write id value) i
    refine ⟨?_, ?_, ?_, rfl, hrecord, hmemory, hline, hlevel, fun i => ?_, fun i hi => ?_⟩
    · simp [writeRegister, command]
    · simp [writeRegister, command]
    · simp [writeRegister, command]
    · simp only [writeRegister, command, hget, Option.map_map]
      congr 1
      funext l
      by_cases hc : (bank.write id value).concerns i = true <;> simp [hc, Bank.input_write]
    · simp only [writeRegister, command, hget, Option.map_map]
      congr 1
      funext l
      by_cases hc : (bank.write id value).concerns i = true
      · have hbank : bank ≠ .pending := by
          rintro rfl
          simp [Command.concerns] at hc
          exact hi (hc ▸ rfl)
        simp [hc, Bank.since_write _ _ hbank]
      · simp [hc]
  | threshold context =>
    have htable : (c.writeRegister value (.threshold context)).table = c.table :=
      table_setThreshold c context value
    exact ⟨by rw [htable], by rw [htable], by rw [htable], size_setThreshold c context value,
      hrecord, hmemory, hline, hlevel, fun _ => by rw [htable], fun _ _ => by rw [htable]⟩

/-! ## Bytes at addresses -/

/-- A register that exists stands at its address. -/
theorem register?_offset {r : Register} (hr : r.Mapped c.table.size c.thresholds.size) :
    c.register? r.offset = some r := decode_eq_some_iff.mpr ⟨hr, rfl⟩

/-- No write moves a register. -/
theorem register?_writeByte (c : Controller σ) (offset : Nat) (value : UInt8) (other : Nat) :
    (c.writeByte offset value).register? other = c.register? other := by
  unfold writeByte
  cases c.register? offset with
  | none => rfl
  | some r => exact register?_writeRegister c value r other

/-- No write changes which bits of a priority there are. -/
theorem priorityMask_writeByte (c : Controller σ) (offset : Nat) (value : UInt8) :
    (c.writeByte offset value).table.priorityMask = c.table.priorityMask := by
  unfold writeByte
  cases c.register? offset with
  | none => rfl
  | some r => exact (changedAt_writeRegister c value r).mask

/-- **A byte written is read back**, as far as its register keeps it. -/
theorem readByte_writeByte (c : Controller σ) (offset : Nat) (value : UInt8) :
    (c.writeByte offset value).readByte offset =
      (c.register? offset).elim 0 (Register.keep c.table.priorityMask value) := by
  rw [readByte, register?_writeByte, writeByte]
  cases hr : c.register? offset with
  | none => rfl
  | some r => exact readRegister_writeRegister (decode_eq_some_iff.mp hr).1 value

/-- **A write shows at no other address.** -/
theorem readByte_writeByte_of_ne (c : Controller σ) {offset other : Nat} (hne : offset ≠ other)
    (value : UInt8) : (c.writeByte offset value).readByte other = c.readByte other := by
  rw [readByte, register?_writeByte, writeByte, readByte]
  cases hr : c.register? offset with
  | none => rfl
  | some r =>
    cases hs : c.register? other with
    | none => rfl
    | some s =>
      refine readRegister_writeRegister_of_ne ?_ value
      rintro rfl
      exact hne ((decode_eq_some_iff.mp hr).2.symm.trans (decode_eq_some_iff.mp hs).2)

/-- **What is read after any writes**: what the register has kept of the byte last written to it, or
what has stood there before if none was. -/
theorem readByte_storeAll (b : RegisterBlock σ) (writes : List (Nat × UInt8)) (offset : Nat) :
    (b.storeAll writes).controller.readByte offset =
      (lastWritten offset writes).elim (b.controller.readByte offset) fun value =>
        (b.controller.register? offset).elim 0
          (Register.keep b.controller.table.priorityMask value) := by
  induction writes generalizing b with
  | nil => rfl
  | cons w writes ih =>
    have hrest : (b.storeAll (w :: writes)) =
        RegisterBlock.storeAll { b with controller := b.controller.writeByte w.1 w.2 } writes := rfl
    rw [hrest, ih, register?_writeByte, priorityMask_writeByte]
    by_cases hw : w.1 = offset
    · cases hlast : (writes.filter fun w => w.1 == offset).getLast? with
      | none => simp [lastWritten, hw, hlast, List.getLast?_cons, readByte_writeByte]
      | some last => simp [lastWritten, hw, hlast, List.getLast?_cons]
    · simp [lastWritten, hw, readByte_writeByte_of_ne]

/-- **Registers are cells.** Reading changes nothing. A byte written to a register is read back as
far as the register keeps it, and nothing changes but behind that register; a write to an address
without register changes nothing at all, and such an address reads as 0. No write shows at another
address than its own. So after any writes each register shows what it has kept of the byte last
written to it. -/
theorem registers_are_cells (b : RegisterBlock σ) :
    let lines := b.controller.table.size
    let contexts := b.controller.thresholds.size
    let mask := b.controller.table.priorityMask
    let read (b : RegisterBlock σ) (offset : Nat) : UInt8 := (Bus.ByteAccess.load offset b).1
    (∀ offset, (Bus.ByteAccess.load offset b).2 = b) ∧
      (∀ (r : Register) (value : UInt8), r.Mapped lines contexts →
        let after := Bus.ByteAccess.store r.offset value b
        read after r.offset = r.keep mask value ∧ after.base = b.base ∧
          b.controller.ChangedAt r after.controller) ∧
      (∀ (offset : Nat) (value : UInt8),
        (∀ r : Register, r.Mapped lines contexts → r.offset ≠ offset) →
          Bus.ByteAccess.store offset value b = b ∧ read b offset = 0) ∧
      (∀ (offset other : Nat) (value : UInt8), offset ≠ other →
        read (Bus.ByteAccess.store offset value b) other = read b other) ∧
      ∀ (writes : List (Nat × UInt8)) (r : Register), r.Mapped lines contexts →
        read (b.storeAll writes) r.offset =
          (lastWritten r.offset writes).elim (read b r.offset) (r.keep mask ·) := by
  intro lines contexts mask read
  refine ⟨fun offset => rfl, ?_, ?_, ?_, ?_⟩
  · intro r value hr after
    have hat := register?_offset hr
    refine ⟨?_, rfl, ?_⟩
    · have hread := readByte_writeByte b.controller r.offset value
      rwa [hat] at hread
    · have hchanged := changedAt_writeRegister b.controller value r
      have hafter : after.controller = b.controller.writeRegister value r := by
        show b.controller.writeByte r.offset value = _
        rw [writeByte, hat, Option.elim_some]
      rwa [hafter]
  · intro offset value hempty
    have hnone : b.controller.register? offset = none := by
      rw [Option.eq_none_iff_forall_ne_some]
      intro r hr
      exact hempty r (decode_eq_some_iff.mp hr).1 (decode_eq_some_iff.mp hr).2
    have hsame : b.controller.writeByte offset value = b.controller := by
      rw [writeByte, hnone, Option.elim_none]
    refine ⟨?_, ?_⟩
    · show { b with controller := b.controller.writeByte offset value } = b
      rw [hsame]
    · show b.controller.readByte offset = 0
      rw [readByte, hnone, Option.elim_none]
  · intro offset other value hne
    exact readByte_writeByte_of_ne b.controller hne value
  · intro writes r hr
    have hread := readByte_storeAll b writes r.offset
    rwa [register?_offset hr] at hread

end Controller

end Irq
