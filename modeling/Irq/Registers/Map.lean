import Irq.Registers.Layout

/-!
# Irq.Registers.Map

Which register lies at which address. Every line has a register in each of four banks and every
context has one for its threshold; all other addresses are empty. `decode_eq_some_iff` says that an
address holds a register exactly when it is the address of that register.
-/

namespace Irq.Registers

/-- A bank of registers, one for each line. -/
inductive Bank where
  | pending
  | enable
  | attributes
  | priority
  deriving DecidableEq

/-- The address of a bank. -/
def Bank.base : Bank → Nat
  | pending => pendingBank
  | enable => enableBank
  | attributes => attributeBank
  | priority => priorityBank

/-- The bank of an address below the threshold pages. -/
def Bank.at? (offset : Nat) : Option Bank :=
  [Bank.pending, .enable, .attributes, .priority].find? fun bank =>
    bank.base ≤ offset ∧ offset < bank.base + bankSize

/-- A register. -/
inductive Register where
  /-- The register of a line in a bank. -/
  | line (bank : Bank) (id : Nat)
  /-- The threshold of a context. -/
  | threshold (context : Nat)
  deriving DecidableEq

namespace Register

/-- The address of a register. -/
def offset : Register → Nat
  | line bank id => bank.base + id
  | threshold context => thresholdBase + context * contextStride

/-- Whether a controller of that many lines and contexts has the register. Lines that do not fit
into a bank have no registers. -/
def Mapped (lines contexts : Nat) : Register → Prop
  | line _ id => id < lines ∧ id < bankSize
  | threshold context => context < contexts

end Register

/-- The register at an address. -/
def decode (lines contexts offset : Nat) : Option Register :=
  if thresholdBase ≤ offset then
    let rest := offset - thresholdBase
    if rest % contextStride = 0 ∧ rest / contextStride < contexts then
      some (.threshold (rest / contextStride))
    else none
  else
    (Bank.at? offset).bind fun bank =>
      if offset - bank.base < lines then some (.line bank (offset - bank.base)) else none

/-- A bank is found at the addresses from its base to its end. -/
theorem Bank.at?_eq_some_iff {offset : Nat} {bank : Bank} :
    Bank.at? offset = some bank ↔ bank.base ≤ offset ∧ offset < bank.base + bankSize := by
  cases bank <;>
    simp only [Bank.at?, List.find?_cons, List.find?_nil, Bank.base, pendingBank, enableBank,
      attributeBank, priorityBank, bankSize] <;>
    grind

/-- **The map is one to one**: an address holds a register exactly when the register exists and the
address is its own. -/
theorem decode_eq_some_iff {lines contexts offset : Nat} {r : Register} :
    decode lines contexts offset = some r ↔ r.Mapped lines contexts ∧ r.offset = offset := by
  unfold decode
  split
  · next h =>
    cases r with
    | line bank id =>
      have hbase : bank.base ≤ 0xC00 := by cases bank <;> decide
      constructor
      · intro hd
        dsimp only at hd
        split at hd <;> cases hd
      · rintro ⟨⟨-, hid⟩, hoff⟩
        simp only [thresholdBase] at h
        simp only [bankSize] at hid
        simp only [Register.offset] at hoff
        omega
    | threshold context =>
      have hstride : 0 < contextStride := by decide
      dsimp only [Register.Mapped, Register.offset]
      constructor
      · intro hd
        split at hd
        · next hpage =>
          cases hd
          have hdiv := Nat.div_add_mod' (offset - thresholdBase) contextStride
          exact ⟨hpage.2, by omega⟩
        · cases hd
      · rintro ⟨hc, rfl⟩
        simp [Nat.mul_div_cancel _ hstride, hc]
  · next h =>
    cases r with
    | line bank id =>
      simp only [Option.bind_eq_some_iff, Bank.at?_eq_some_iff, Register.Mapped, Register.offset]
      constructor
      · rintro ⟨b, hb, hid⟩
        split at hid
        · cases hid
          omega
        · cases hid
      · rintro ⟨⟨hl, hb⟩, rfl⟩
        exact ⟨bank, by omega, by simp [hl]⟩
    | threshold context =>
      simp only [Register.Mapped, Register.offset, thresholdBase] at *
      constructor
      · intro hd
        obtain ⟨b, -, hb⟩ := Option.bind_eq_some_iff.mp hd
        split at hb <;> cases hb
      · rintro ⟨-, rfl⟩
        omega

/-- Two registers of one controller never share an address. -/
theorem offset_injective {lines contexts : Nat} {r s : Register}
    (hr : r.Mapped lines contexts) (hs : s.Mapped lines contexts) (h : r.offset = s.offset) :
    r = s := by
  have hd := decode_eq_some_iff.mpr ⟨hr, h⟩
  rw [decode_eq_some_iff.mpr ⟨hs, rfl⟩] at hd
  exact (Option.some.inj hd).symm

/-- A larger controller has all registers of a smaller one. -/
theorem Register.Mapped.mono {lines contexts lines' contexts' : Nat} {r : Register}
    (hr : r.Mapped lines contexts) (hlines : lines ≤ lines') (hcontexts : contexts ≤ contexts') :
    r.Mapped lines' contexts' := by
  cases r with
  | line bank id => exact ⟨Nat.lt_of_lt_of_le hr.1 hlines, hr.2⟩
  | threshold context => exact Nat.lt_of_lt_of_le hr hcontexts

/-- The address of a register that only a larger controller has is empty. -/
theorem decode_offset_eq_none {lines contexts lines' contexts' : Nat} {r : Register}
    (hr : r.Mapped lines' contexts') (hmissing : ¬ r.Mapped lines contexts) :
    decode lines contexts r.offset = none := by
  rw [Option.eq_none_iff_forall_ne_some]
  intro s hs
  obtain ⟨hmapped, hoffset⟩ := decode_eq_some_iff.mp hs
  have hsame : s = r :=
    offset_injective (hmapped.mono (Nat.le_max_left lines lines') (Nat.le_max_left _ contexts'))
      (hr.mono (Nat.le_max_right lines lines') (Nat.le_max_right contexts _)) hoffset
  exact hmissing (hsame ▸ hmapped)

/-- Every register lies inside the window. -/
theorem offset_lt_windowSize {lines contexts : Nat} {r : Register}
    (h : r.Mapped lines contexts) : r.offset < windowSize contexts := by
  cases r with
  | line bank id =>
    have hbase : bank.base ≤ 0xC00 := by cases bank <;> decide
    simp only [Register.Mapped, bankSize] at h
    simp only [Register.offset, windowSize, thresholdBase, contextStride]
    omega
  | threshold context =>
    simp only [Register.Mapped] at h
    simp only [Register.offset, windowSize, thresholdBase, contextStride]
    omega

end Irq.Registers
