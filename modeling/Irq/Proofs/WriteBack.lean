import Irq.Proofs.Intact
import Irq.Proofs.WideAccess

/-!
# Irq.Proofs.WriteBack

Reading registers and writing back what was read. In a state made up at will that could leave a
trace: a withdrawal forgets the stamp of an idle line, and a priority loses bits that do not exist.
In the states that a controller can come to, idle lines have no stamps and priorities have no such
bits; and a request that is pending keeps its stamp when it is raised again. So each register takes
back what it shows (`Bank.effect_write_read`), and with it every access, however wide.
-/

namespace Irq

/-- **A line takes back what its registers show**, if it is one that a controller can come to. -/
theorem Registers.Bank.effect_write_read {t : LineTable} {l : Line}
    (hl : l.Sound t.priorityMask t.now) (bank : Bank) (id : Nat) :
    t.effect (bank.write id (bank.read l)) l = l := by
  rw [effect_write]
  cases bank with
  | pending =>
    cases hp : l.pending with
    | true => simp [read, hp, Bool.toUInt8, Line.raise_of_pending]
    | false =>
      have hsince : l.since = none := by
        rw [← Option.not_isSome_iff_eq_none, ← hl.stamped, hp]
        exact Bool.false_ne_true
      simp [read, hp, Bool.toUInt8, Line.lower_of_not_pending hp hsince]
  | enable =>
    have hbit : (l.enabled.toUInt8 &&& 1 != 0) = l.enabled := by cases l.enabled <;> rfl
    simp only [read, hbit]
  | attributes => simp [read]
  | priority => simp only [read, LineTable.maskPriority, hl.masked]

namespace Controller

open Registers

variable {σ : Type}

/-- Whether all lines of a controller are such as it can come to. -/
def Sound (c : Controller σ) : Prop :=
  ∀ (i : Nat) (l : Line), c.table.lines[i]? = some l → l.Sound c.table.priorityMask c.table.now

/-- A register takes back what it shows. A write reaches one line or one context, and the others are
as before. -/
theorem Sound.writeRegister_readRegister {c : Controller σ} (hc : c.Sound) (r : Register) :
    c.writeRegister (c.readRegister r) r = c := by
  obtain ⟨hrecord, hmemory⟩ := rest_writeRegister c (c.readRegister r) r
  refine ext_clients hrecord hmemory fun k => ?_
  by_cases hk : r.client = k
  · have hat := changedAt_writeRegister c (c.readRegister r) r
    refine ⟨hat.size, hat.mask, hat.now, hat.contexts, fun id hid => ?_, fun i hi => ?_⟩
    · cases r with
      | threshold context => simp_all [Register.client]
      | line bank id' =>
        obtain rfl : id' = id := by simpa [Register.client, hid] using hk
        cases hl : c.table.lines[id']? with
        | none => simp [writeRegister, command, LineTable.getElem?_apply, hl]
        | some l =>
          have hback := Bank.effect_write_read (hc id' l hl) bank id'
          simp [writeRegister, command, readRegister, LineTable.getElem?_apply, hl, hback]
    · cases r with
      | line bank id => simp_all [Register.client]
      | threshold context =>
        obtain rfl : context = i := by simpa [Register.client, hi] using hk
        cases hl : c.thresholds.levels[context]? <;>
          simp [writeRegister, getElem?_setThreshold, readRegister, hl]
  · exact sameTo_writeRegister c (c.readRegister r) hk

/-- A byte that was read is written back without a trace. -/
theorem Sound.writeByte_readByte {c : Controller σ} (hc : c.Sound) (offset : Nat) :
    c.writeByte offset (c.readByte offset) = c := by
  unfold writeByte readByte
  cases c.register? offset with
  | none => rfl
  | some r => exact hc.writeRegister_readRegister r

/-- Every controller that a run leads to is sound. -/
theorem sound_run (g : Geometry) (memory : σ) (h : Handler σ) (ops : List Operation) :
    ((ofGeometry g memory).run h ops).2.Sound := by
  rw [Sound, (course_run h _ ops).table]
  exact (intact_replay g memory h ops (List.prefix_refl _)).sound

/-- **Writing back what was read leaves no trace.** In every state that a controller can come to,
whatever it is asked and whatever its handler does, a word of any width that is read anywhere and
written back there changes nothing in the whole state, although it may lie across the banks, beyond
the last line or beside a threshold. -/
theorem store_back_loaded (g : Geometry) (memory : σ) (h : Handler σ) (ops : List Operation)
    (base : Nat) (width : Bus.Width) (offset : Nat) :
    let b : RegisterBlock σ := ⟨base, ((ofGeometry g memory).run h ops).2⟩
    let (value, after) := Bus.load width offset b
    value < 2 ^ (8 * width.bytes) ∧ after = b ∧ Bus.store width offset value after = b := by
  intro b
  have hload (i : Nat) : (Bus.ByteAccess.load i b).2 = b := rfl
  have hstore (i : Nat) : Bus.ByteAccess.store i (Bus.ByteAccess.load i b).1 b = b := by
    have hback := (sound_run g memory h ops).writeByte_readByte i
    exact congrArg (RegisterBlock.mk base) hback
  obtain ⟨hlt, hsame, hback⟩ := Bus.store_load hload hstore width offset
  exact ⟨hlt, hsame, (congrArg (Bus.store width offset _) hsame).trans hback⟩

end Controller

end Irq
