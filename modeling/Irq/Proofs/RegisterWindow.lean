import Irq.Config.Reader
import Irq.Registers.Block
import Mathlib.Algebra.Group.Nat.Defs

/-!
# Irq.Proofs.RegisterWindow

The register window of a controller. Whatever its shape, each register that it has is found at one
64-bit address, and an address is empty exactly when it lies in a hole of the map: behind the last
line in a bank, behind the first byte of a page, or behind the window (`decode_eq_none_iff`). A
configuration that is in range leaves no line without registers, and its window takes up 64 KiB at
most; without that check the lines from 1024 on have none.
-/

namespace Irq

namespace Registers

/-- Whether a controller of that many lines and contexts has what a register is of. -/
def Register.Belongs (lines contexts : Nat) : Register → Prop
  | line _ id => id < lines
  | threshold context => context < contexts

/-- The holes in the map of a controller of that many lines and contexts. -/
inductive Hole (lines contexts : Nat) : Nat → Prop where
  /-- Behind the last line of a bank. -/
  | bank (bank : Bank) {id : Nat} (hmissing : lines ≤ id) (hid : id < bankSize) :
      Hole lines contexts (bank.base + id)
  /-- Behind the first byte of a page. -/
  | page (context : Nat) {rest : Nat} (hpos : 0 < rest) (hrest : rest < contextStride) :
      Hole lines contexts (thresholdBase + context * contextStride + rest)
  /-- Behind the last page. -/
  | beyond {offset : Nat} (hoffset : windowSize contexts ≤ offset) : Hole lines contexts offset

/-- The register at an address in the arithmetic of 64-bit words. An address below the pages is
rounded down to the start of its bank, and the others are divided into pages. -/
def decodeWord (lines contexts : Nat) (offset : UInt64) : Option Register :=
  if 0x1000 ≤ offset then
    let rest := offset - 0x1000
    let context := (rest / 0x1000).toNat
    if rest % 0x1000 = 0 ∧ context < contexts then some (.threshold context) else none
  else
    let start := offset / 0x400 * 0x400
    let id := (offset - start).toNat
    if lines ≤ id then none
    else if start = 0x000 then some (.line .pending id)
    else if start = 0x400 then some (.line .enable id)
    else if start = 0x800 then some (.line .attributes id)
    else if start = 0xC00 then some (.line .priority id)
    else none

/-! ## Registers and their addresses -/

/-- A register in the map belongs to a line or a context that exists. -/
theorem Register.Mapped.belongs {lines contexts : Nat} {r : Register}
    (hr : r.Mapped lines contexts) : r.Belongs lines contexts := by
  cases r with
  | line bank id => exact hr.1
  | threshold context => exact hr

/-- What belongs to a controller is mapped, but for the lines that do not fit into a bank. -/
theorem Register.mapped_iff_of_belongs {lines contexts : Nat} {r : Register}
    (hr : r.Belongs lines contexts) :
    r.Mapped lines contexts ↔ ¬ ∃ bank id, r = .line bank id ∧ bankSize ≤ id := by
  cases r with
  | line bank id =>
    have hid : id < lines := hr
    simp [Mapped, hid]
  | threshold context =>
    have hcontext : context < contexts := hr
    simp [Mapped, hcontext]

/-- Where all lines fit into a bank, everything is mapped. -/
theorem Register.mapped_iff_belongs {lines contexts : Nat} (hlines : lines ≤ bankSize)
    {r : Register} : r.Mapped lines contexts ↔ r.Belongs lines contexts := by
  refine ⟨Mapped.belongs, fun hr => (mapped_iff_of_belongs hr).mpr ?_⟩
  rintro ⟨bank, id, rfl, hid⟩
  have hlt : id < lines := hr
  omega

/-- Every address in front of the thresholds lies in a bank. -/
theorem exists_bank_of_lt {offset : Nat} (h : offset < thresholdBase) :
    ∃ (bank : Bank) (id : Nat), id < bankSize ∧ bank.base + id = offset := by
  simp only [thresholdBase] at h
  obtain h0 | h1 | h2 | h3 : offset < 0x400 ∨ (0x400 ≤ offset ∧ offset < 0x800) ∨
      (0x800 ≤ offset ∧ offset < 0xC00) ∨ 0xC00 ≤ offset := by omega
  · exact ⟨.pending, offset, h0, Nat.zero_add offset⟩
  · exact ⟨.enable, offset - 0x400, by simp only [bankSize]; omega, Nat.add_sub_cancel' h1.1⟩
  · exact ⟨.attributes, offset - 0x800, by simp only [bankSize]; omega, Nat.add_sub_cancel' h2.1⟩
  · exact ⟨.priority, offset - 0xC00, by simp only [bankSize]; omega, Nat.add_sub_cancel' h3⟩

/-- Every address from the thresholds on lies in a page. -/
theorem exists_page_of_le {offset : Nat} (h : thresholdBase ≤ offset) :
    ∃ context rest : Nat, rest < contextStride ∧
      thresholdBase + context * contextStride + rest = offset := by
  refine ⟨(offset - thresholdBase) / contextStride, (offset - thresholdBase) % contextStride,
    Nat.mod_lt _ (by decide), ?_⟩
  simp only [thresholdBase, contextStride] at *
  omega

/-- An address without register is in a hole. The first byte of a page is empty only if the page is
not there. -/
theorem hole_of_decode_eq_none {lines contexts offset : Nat}
    (hnone : decode lines contexts offset = none) : Hole lines contexts offset := by
  have hempty (r : Register) (hr : r.Mapped lines contexts) : r.offset ≠ offset := fun h =>
    Option.some_ne_none r ((decode_eq_some_iff.mpr ⟨hr, h⟩).symm.trans hnone)
  rcases Nat.lt_or_ge offset thresholdBase with hbank | hpage
  · obtain ⟨bank, id, hid, rfl⟩ := exists_bank_of_lt hbank
    have hmissing : lines ≤ id := Nat.not_lt.mp fun hlt => hempty (.line bank id) ⟨hlt, hid⟩ rfl
    exact .bank bank hmissing hid
  · obtain ⟨context, rest, hrest, rfl⟩ := exists_page_of_le hpage
    rcases Nat.eq_zero_or_pos rest with rfl | hpos
    · have hcontexts : contexts ≤ context :=
        Nat.not_lt.mp fun hlt => hempty (.threshold context) hlt rfl
      exact .beyond (Nat.add_le_add_left (Nat.mul_le_mul_right _ hcontexts) _)
    · exact .page context hpos hrest

/-- There is no register in a hole. -/
theorem Hole.decode_eq_none {lines contexts offset : Nat} (hhole : Hole lines contexts offset) :
    decode lines contexts offset = none := by
  rw [Option.eq_none_iff_forall_ne_some]
  intro r hr
  obtain ⟨hmapped, hoffset⟩ := decode_eq_some_iff.mp hr
  cases hhole with
  | @bank bank id hmissing hid =>
    have hplace : Register.Mapped (id + 1) 0 (.line bank id) := ⟨Nat.lt_succ_self id, hid⟩
    have hnone : decode lines contexts (bank.base + id) = none :=
      decode_offset_eq_none hplace fun h => Nat.not_lt.mpr hmissing h.1
    exact Option.some_ne_none r (hr.symm.trans hnone)
  | @page context rest hpos hrest =>
    cases r with
    | line bank id =>
      have hbase : bank.base ≤ 0xC00 := by cases bank <;> decide
      simp only [Register.Mapped, bankSize] at hmapped
      simp only [Register.offset, thresholdBase] at hoffset
      omega
    | threshold other =>
      simp only [Register.offset, contextStride] at hoffset hrest
      omega
  | beyond hbeyond =>
    have hlt := offset_lt_windowSize hmapped
    omega

/-- **An address is empty exactly when it lies in a hole of the map.** -/
theorem decode_eq_none_iff {lines contexts offset : Nat} :
    decode lines contexts offset = none ↔ Hole lines contexts offset :=
  ⟨hole_of_decode_eq_none, Hole.decode_eq_none⟩

/-- Rounded down, an address in a bank is the start of the bank, and what remains is its line. -/
theorem round_of_bank {offset : UInt64} {bank : Bank} {id : Nat} (hid : id < bankSize)
    (hoffset : bank.base + id = offset.toNat) :
    offset / 0x400 * 0x400 = UInt64.ofNat bank.base ∧
      (offset - offset / 0x400 * 0x400).toNat = id := by
  have hbase : bank.base ≤ 0xC00 := by cases bank <;> decide
  have hround : offset.toNat / 0x400 * 0x400 = bank.base := by
    rw [← hoffset]
    cases bank <;> simp only [Bank.base, pendingBank, enableBank, attributeBank, priorityBank,
      bankSize] at * <;> omega
  have hstart : (offset / 0x400 * 0x400).toNat = bank.base := by
    rw [UInt64.toNat_mul, UInt64.toNat_div]
    exact (congrArg (· % 2 ^ 64) hround).trans (Nat.mod_eq_of_lt (by omega))
  have hle : offset / 0x400 * 0x400 ≤ offset := by
    rw [UInt64.le_iff_toNat_le, hstart, ← hoffset]
    exact Nat.le_add_right _ _
  constructor
  · rw [← hstart, UInt64.ofNat_toNat]
  · rw [UInt64.toNat_sub_of_le _ _ hle, hstart, ← hoffset, Nat.add_sub_cancel_left]

/-- **The arithmetic of words finds the same register.** -/
theorem decodeWord_eq_decode (lines contexts : Nat) (offset : UInt64) :
    decodeWord lines contexts offset = decode lines contexts offset.toNat := by
  by_cases hpage : 0x1000 ≤ offset
  · have hnat : thresholdBase ≤ offset.toNat := hpage
    have hrest : (offset - 0x1000).toNat = offset.toNat - thresholdBase :=
      UInt64.toNat_sub_of_le _ _ hpage
    have hcontext : ((offset - 0x1000) / 0x1000).toNat =
        (offset.toNat - thresholdBase) / contextStride := by
      rw [UInt64.toNat_div, hrest]
      rfl
    have hzero : (offset - 0x1000) % 0x1000 = 0 ↔
        (offset.toNat - thresholdBase) % contextStride = 0 := by
      rw [← UInt64.toNat_inj, UInt64.toNat_mod, hrest]
      rfl
    simp only [decodeWord, decode, if_pos hpage, if_pos hnat, hcontext, hzero]
  · have hbank : offset.toNat < thresholdBase := Nat.not_le.mp hpage
    obtain ⟨bank, id, hid, hoffset⟩ := exists_bank_of_lt hbank
    obtain ⟨hstart, hnumber⟩ := round_of_bank hid hoffset
    simp only [decodeWord, if_neg hpage, hnumber]
    rw [hstart, ← hoffset]
    by_cases hmissing : lines ≤ id
    · rw [if_pos hmissing, decode_eq_none_iff.mpr (.bank bank hmissing hid)]
    · have hfound : decode lines contexts (bank.base + id) = some (.line bank id) :=
        decode_eq_some_iff.mpr ⟨⟨Nat.not_le.mp hmissing, hid⟩, rfl⟩
      rw [if_neg hmissing, hfound]
      cases bank <;> rfl

end Registers

/-- Whether the registers of which `has` holds and the 64-bit addresses at which a controller finds
registers correspond one to one, inside a window. -/
structure Controller.OneToOne {σ : Type} (c : Controller σ) (has : Registers.Register → Prop)
    (window : Nat) : Prop where
  /-- Each register is found at one address, which is its own and lies in the window. -/
  found : ∀ r : Registers.Register, has r → ∃ offset : UInt64, offset.toNat = r.offset ∧
    offset.toNat < window ∧ ∀ other : UInt64, c.register? other.toNat = some r ↔ other = offset
  /-- Two registers have two addresses. -/
  distinct : ∀ r s : Registers.Register, has r → has s → r.offset = s.offset → r = s
  /-- No register is found at two addresses. -/
  injective : ∀ (offset other : UInt64) (r : Registers.Register),
    c.register? offset.toNat = some r → c.register? other.toNat = some r → offset = other
  /-- Only these registers are found. -/
  only : ∀ (offset : UInt64) (r : Registers.Register), c.register? offset.toNat = some r → has r
  /-- All other addresses are empty. -/
  empty : ∀ offset : UInt64, (∀ r : Registers.Register, has r → r.offset ≠ offset.toNat) →
    c.register? offset.toNat = none

namespace Controller

open Registers

variable {σ : Type}

theorem register?_ofGeometry (g : Geometry) (memory : σ) (offset : Nat) :
    (ofGeometry g memory).register? offset = decode g.lines g.contexts offset := by
  simp [register?, ofGeometry]

theorem window_ofGeometry (g : Geometry) (memory : σ) :
    (Bus.Device.range (RegisterBlock.ofGeometry g memory)).2 = windowSize g.contexts :=
  congrArg windowSize (Thresholds.size_ofSize g.contexts)

/-- **The map of any controller is one to one**, as long as its window can be addressed. -/
theorem oneToOne_ofGeometry (g : Geometry) (memory : σ) (hwindow : windowSize g.contexts < 2 ^ 64) :
    (ofGeometry g memory).OneToOne (Register.Mapped g.lines g.contexts) (windowSize g.contexts) := by
  constructor
  case found =>
    intro r hr
    have hlt : r.offset < windowSize g.contexts := offset_lt_windowSize hr
    have hword : (UInt64.ofNat r.offset).toNat = r.offset :=
      UInt64.toNat_ofNat_of_lt' (Nat.lt_trans hlt hwindow)
    refine ⟨UInt64.ofNat r.offset, hword, hword.symm ▸ hlt, fun other => ?_⟩
    rw [register?_ofGeometry, decode_eq_some_iff, ← UInt64.toNat_inj, hword, eq_comm]
    exact and_iff_right hr
  case distinct => exact fun r s hr hs => offset_injective hr hs
  case injective =>
    intro offset other r hoffset hother
    rw [register?_ofGeometry, decode_eq_some_iff] at hoffset hother
    exact UInt64.toNat_inj.mp (hoffset.2.symm.trans hother.2)
  case only =>
    intro offset r hr
    rw [register?_ofGeometry, decode_eq_some_iff] at hr
    exact hr.1
  case empty =>
    intro offset hempty
    rw [register?_ofGeometry, Option.eq_none_iff_forall_ne_some]
    intro r hr
    exact hempty r (decode_eq_some_iff.mp hr).1 (decode_eq_some_iff.mp hr).2

/-- A controller has exactly the registers that are found somewhere. -/
theorem OneToOne.has_iff {c : Controller σ} {has : Register → Prop} {window : Nat}
    (hc : c.OneToOne has window) {r : Register} :
    has r ↔ ∃ offset : UInt64, c.register? offset.toNat = some r := by
  constructor
  · intro hr
    obtain ⟨offset, -, -, honly⟩ := hc.found r hr
    exact ⟨offset, (honly offset).mpr rfl⟩
  · rintro ⟨offset, hoffset⟩
    exact hc.only offset r hoffset

/-- **Registers and addresses correspond one to one.** In any controller whose window can be
addressed each register is found at one address, and no address holds what the controller does not
have; it is only lines from 1024 on that have no registers. Where the configuration was loaded from
a text, by whatever decoding, or passes the check, every line and every context has its registers,
the window takes up 64 KiB at most, and the addresses without register are those in the holes of the
map. -/
theorem registers_one_to_one (memory : σ) :
    (∀ (g : Geometry) (offset : UInt64), decodeWord g.lines g.contexts offset =
      (ofGeometry g memory).register? offset.toNat) ∧
    (∀ g : Geometry, (g.contexts + 1) * 0x1000 < 2 ^ 64 →
      let b := RegisterBlock.ofGeometry g memory
      b.controller.OneToOne (Register.Mapped g.lines g.contexts) (Bus.Device.range b).2 ∧
        (∀ (offset : UInt64) (r : Register), b.controller.register? offset.toNat = some r →
          r.Belongs g.lines g.contexts) ∧
        ∀ r : Register, r.Belongs g.lines g.contexts →
          ((∀ offset : UInt64, b.controller.register? offset.toNat ≠ some r) ↔
            ∃ bank id, r = .line bank id ∧ 1024 ≤ id)) ∧
    ∀ config : Config,
      (∃ (L : Json.Decoding) (text : String), Config.load L text = .ok config) ∨
        config.validate = .ok () →
      let g := config.controller
      let b := RegisterBlock.ofGeometry g memory
      (Bus.Device.range b).2 ≤ 0x10000 ∧
        b.controller.OneToOne (Register.Belongs g.lines g.contexts) (Bus.Device.range b).2 ∧
        ∀ offset : UInt64, b.controller.register? offset.toNat = none ↔
          Hole g.lines g.contexts offset.toNat := by
  refine ⟨?_, ?_, ?_⟩
  · intro g offset
    rw [register?_ofGeometry, decodeWord_eq_decode]
  · intro g hcontexts b
    have hwindow : windowSize g.contexts < 2 ^ 64 := by
      simp only [windowSize, thresholdBase, contextStride]
      omega
    have hmap : b.controller.OneToOne (Register.Mapped g.lines g.contexts) (windowSize g.contexts) :=
      oneToOne_ofGeometry g memory hwindow
    rw [window_ofGeometry]
    refine ⟨hmap, fun offset r hr => (hmap.only offset r hr).belongs, fun r hr => ?_⟩
    rw [← not_exists, ← hmap.has_iff, Register.mapped_iff_of_belongs hr, Classical.not_not]
    rfl
  · intro config hconfig g b
    have hrange : config.InRange := by
      rcases hconfig with ⟨L, text, hload⟩ | hvalid
      · exact Config.inRange_of_load hload
      · exact Config.validate_eq_ok_iff.mp hvalid
    obtain ⟨⟨-, hlines⟩, ⟨-, hcontexts⟩, -⟩ := hrange
    have hwindow : windowSize g.contexts ≤ 0x10000 := windowSize_le hcontexts
    have hmap := oneToOne_ofGeometry g memory (Nat.lt_of_le_of_lt hwindow (by decide))
    have hhas : Register.Mapped g.lines g.contexts = Register.Belongs g.lines g.contexts :=
      funext fun r => propext (Register.mapped_iff_belongs hlines)
    rw [window_ofGeometry, ← hhas]
    refine ⟨hwindow, hmap, fun offset => ?_⟩
    exact (register?_ofGeometry g memory offset.toNat).symm ▸ decode_eq_none_iff

/-- The widest configuration that can be loaded fills its window to the last page, and a page has
holes behind its first byte. In a controller of one line more, which no check has seen, the last
line has no registers. -/
theorem registers_one_to_one_of_widest :
    let text := "[[1024, 15]]"
    let config : Config := { controller := { lines := 1024, contexts := 15 } }
    let b := RegisterBlock.ofGeometry config.controller ()
    let wider : Geometry := { lines := 1025, contexts := 15 }
    let b' := RegisterBlock.ofGeometry wider ()
    Config.ofText text = .ok config ∧ (Bus.Device.range b).2 = 0x10000 ∧
      b.controller.OneToOne (Register.Belongs 1024 15) (Bus.Device.range b).2 ∧
      (∃ offset : UInt64, offset.toNat < 0x10000 ∧
        b.controller.register? offset.toNat = some (.line .priority 1023)) ∧
      b.controller.register? (0xF000 : UInt64).toNat = some (.threshold 14) ∧
      b.controller.register? (0xF001 : UInt64).toNat = none ∧
      (wider.contexts + 1) * 0x1000 < 2 ^ 64 ∧ Register.Belongs 1025 15 (.line .priority 1024) ∧
      ∀ offset : UInt64, b'.controller.register? offset.toNat ≠ some (.line .priority 1024) := by
  have htext : Config.ofText "[[1024, 15]]" =
      .ok { controller := { lines := 1024, contexts := 15 } } := by rfl
  intro text config b wider b'
  obtain ⟨-, hany, haccepted⟩ := registers_one_to_one ()
  have hcontexts : (wider.contexts + 1) * 0x1000 < 2 ^ 64 := by decide
  obtain ⟨-, hmap, hholes⟩ := haccepted config (.inl ⟨Json.reading, text, htext⟩)
  obtain ⟨-, -, hmissing⟩ := hany wider hcontexts
  have hlast : Register.Belongs 1025 15 (.line .priority 1024) := Nat.lt_succ_self 1024
  obtain ⟨offset, -, hlt, hat⟩ := hmap.found (.line .priority 1023) (Nat.lt_succ_self 1023)
  have hwindow : (Bus.Device.range b).2 = 0x10000 :=
    (window_ofGeometry config.controller ()).trans (by decide)
  refine ⟨htext, hwindow, hmap, ⟨offset, hwindow ▸ hlt, (hat offset).mpr rfl⟩, ?_, ?_, hcontexts,
    hlast, ?_⟩
  · exact (register?_ofGeometry config.controller () 0xF000).trans (by decide)
  · have hplace : (0xF001 : UInt64).toNat = thresholdBase + 14 * contextStride + 1 := by decide
    have hhole : Hole 1024 15 (0xF001 : UInt64).toNat := by
      rw [hplace]
      exact .page 14 Nat.one_pos (by decide)
    exact (hholes 0xF001).mpr hhole
  · exact (hmissing (.line .priority 1024) hlast).mpr ⟨.priority, 1024, rfl, Nat.le_refl 1024⟩

end Controller

end Irq
