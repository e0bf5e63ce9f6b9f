import Irq.Proofs.Failures
import Irq.Proofs.RegisterCells
import Irq.Proofs.Tally

/-!
# Irq.Proofs.FrontEnd

The registers as a front end of the same controller. A call is made through the registers by the
bytes that `ThroughRegisters` tells of, and a poll by a claim, which is a poll. A register that a
larger controller would have is found at its address exactly when it exists, and a call that names
what does not exist fails; so both ways do the same whether line and context exist or not
(`writeByte_offset`). Configuring takes two bytes, and their order does not matter.
-/

namespace Irq

open Registers

/-- The write of a single byte. -/
def Operation.writeByte (offset : Nat) (value : UInt8) : Operation :=
  .store .byte offset value.toNat

/-- How a call is made through the registers: by which bytes written where. The line needs a place
in the banks, but neither line nor context need exist. A poll is a claim. -/
inductive Operation.ThroughRegisters : Operation → List Operation → Prop where
  | attributesFirst {id : Nat} (hid : id < bankSize) (priority : UInt8) (attributes : Attributes) :
      ThroughRegisters (.access (.command (.configure id priority attributes)))
        [.writeByte (attributeBank + id) attributes.toByte, .writeByte (priorityBank + id) priority]
  | priorityFirst {id : Nat} (hid : id < bankSize) (priority : UInt8) (attributes : Attributes) :
      ThroughRegisters (.access (.command (.configure id priority attributes)))
        [.writeByte (priorityBank + id) priority, .writeByte (attributeBank + id) attributes.toByte]
  | enable {id : Nat} (hid : id < bankSize) :
      ThroughRegisters (.access (.command (.enable id))) [.writeByte (enableBank + id) 1]
  | disable {id : Nat} (hid : id < bankSize) :
      ThroughRegisters (.access (.command (.disable id))) [.writeByte (enableBank + id) 0]
  | setPending {id : Nat} (hid : id < bankSize) {value : UInt8} (hvalue : value ≠ 0) :
      ThroughRegisters (.access (.command (.setPending id))) [.writeByte (pendingBank + id) value]
  | clearPending {id : Nat} (hid : id < bankSize) :
      ThroughRegisters (.access (.command (.clearPending id))) [.writeByte (pendingBank + id) 0]
  | setThreshold (context : Nat) (level : UInt8) :
      ThroughRegisters (.setThreshold context level)
        [.writeByte (thresholdBase + context * contextStride) level]
  | poll (context : Nat) : ThroughRegisters (.poll context) [.poll context]

/-- Whether a list of accesses replays a list of calls, one call after another. -/
inductive Replays : List Operation → List Operation → Prop where
  | nil : Replays [] []
  | cons {op : Operation} {calls accesses rest : List Operation} :
      op.ThroughRegisters accesses → Replays calls rest → Replays (op :: calls) (accesses ++ rest)

/-- Whether an operation is a poll. -/
def Operation.isPoll : Operation → Bool
  | poll _ => true
  | drain _ _ | awaitService _ _ _ | measureLatency _ _ _ | access _ | setThreshold _ _
  | threshold _ | blocked _ _ | selectNext _ | pendingRequest _ | reset | load _ _ | store _ _ _
  | storeBytes _ _ | sampleAll _ | isRequesting | size | serviceCount _ => false

/-- The answers to the polls of a run. -/
def pollAnswers (ops : List Operation) (answers : List (Except Error Response)) :
    List (Except Error Response) :=
  ((ops.zip answers).filter (·.1.isPoll)).map Prod.snd

/-! ## Configuring in two steps -/

/-- Two commands to a line are one command to it if they have its effect between them. -/
theorem LineTable.apply_apply_eq (t : LineTable) {first second both : Command} {id : Nat}
    (hfirst : first.line? = some id) (hsecond : second.line? = some id) (hboth : both.line? = some id)
    (heffect : ∀ l, t.effect second (t.effect first l) = t.effect both l) :
    (t.apply first).apply second = t.apply both := by
  refine ext_lines (by simp) (by simp) fun i => ?_
  rw [getElem?_apply, getElem?_apply, getElem?_apply, effect_apply, Option.map_map]
  congr 1
  funext l
  by_cases hi : id = i <;> simp [Command.concerns, hfirst, hsecond, hboth, hi, heffect]

namespace Controller

variable {σ : Type} {h : Handler σ} {c : Controller σ}

/-! ## Registers that need not exist -/

/-- A write to a register that does not exist would be a call that fails. -/
theorem writeRegister_of_not_mapped {lines contexts : Nat} {r : Register}
    (hr : r.Mapped lines contexts) (hmissing : ¬ r.Mapped c.table.size c.thresholds.size)
    (value : UInt8) : c.writeRegister value r = c := by
  cases r with
  | line bank id =>
    have hid : c.table.size ≤ id := by
      by_contra hlt
      exact hmissing ⟨by omega, hr.2⟩
    exact command_of_le (Bank.line?_write bank id value) hid
  | threshold context =>
    have hset : c.thresholds.set context value = .error (.invalidContext context _) :=
      Thresholds.set_eq_error_iff.mpr ⟨Nat.not_lt.mp hmissing, rfl⟩
    simp [writeRegister, setThreshold, hset]

/-- **At the address of a register stands the register**, or nothing if it does not exist. -/
theorem writeByte_offset (c : Controller σ) {lines contexts : Nat} {r : Register}
    (hr : r.Mapped lines contexts) (value : UInt8) :
    c.writeByte r.offset value = c.writeRegister value r := by
  by_cases hmapped : r.Mapped c.table.size c.thresholds.size
  · simp [writeByte, register?_offset hmapped]
  · have hnone : c.register? r.offset = none := decode_offset_eq_none hr hmapped
    simp [writeByte, hnone, writeRegister_of_not_mapped hr hmapped]

/-- At the address of a register stands what the register shows. -/
theorem readByte_offset (c : Controller σ) {lines contexts : Nat} {r : Register}
    (hr : r.Mapped lines contexts) : c.readByte r.offset = c.readRegister r := by
  by_cases hmapped : r.Mapped c.table.size c.thresholds.size
  · simp [readByte, register?_offset hmapped]
  · have hnone : c.register? r.offset = none := decode_offset_eq_none hr hmapped
    cases r with
    | line bank id =>
      have hid : c.table.lines.size ≤ id := by
        by_contra hlt
        exact hmapped ⟨Nat.not_le.mp hlt, hr.2⟩
      simp [readByte, hnone, readRegister, hid]
    | threshold context =>
      have hcontext : c.thresholds.levels.size ≤ context := Nat.not_lt.mp hmapped
      simp [readByte, hnone, readRegister, hcontext]

theorem step_writeByte (h : Handler σ) (c : Controller σ) (offset : Nat) (value : UInt8) :
    (c.step h (.writeByte offset value)).2 = c.writeByte offset value := by
  simp [step, Operation.writeByte, Bus.store, Bus.Width.bytes, Bus.bytesOf, Bus.storeBytes]

/-- A byte written to the register of a line is the command it stands for. -/
theorem step_writeByte_line (h : Handler σ) (c : Controller σ) (bank : Bank) {id : Nat}
    (hid : id < bankSize) (value : UInt8) :
    (c.step h (.writeByte (bank.base + id) value)).2 = (c.command (bank.write id value)).2 := by
  have hr : Register.Mapped (id + 1) 0 (.line bank id) := ⟨Nat.lt_succ_self id, hid⟩
  rw [step_writeByte]
  exact writeByte_offset c hr value

/-- A write to the register of a threshold sets the threshold. -/
theorem step_writeByte_threshold (h : Handler σ) (c : Controller σ) (context : Nat)
    (value : UInt8) :
    (c.step h (.writeByte (thresholdBase + context * contextStride) value)).2 =
      (c.setThreshold context value).2 := by
  have hr : Register.Mapped 0 (context + 1) (.threshold context) := Nat.lt_succ_self context
  rw [step_writeByte]
  exact writeByte_offset c hr value

/-! ## One call -/

/-- Two bytes for one line are one command to it if they have its effect between them. -/
theorem run_writeByte_writeByte (h : Handler σ) (c : Controller σ) (bank other : Bank) {id : Nat}
    (hid : id < bankSize) (value value' : UInt8) {cmd : Command} (hcmd : cmd.line? = some id)
    (heffect : ∀ l, c.table.effect (other.write id value')
      (c.table.effect (bank.write id value) l) = c.table.effect cmd l) :
    (c.run h [.writeByte (bank.base + id) value, .writeByte (other.base + id) value']).2 =
      (c.command cmd).2 := by
  have htable := LineTable.apply_apply_eq c.table (Bank.line?_write bank id value)
    (Bank.line?_write other id value') hcmd heffect
  rw [run_cons, run_cons, step_writeByte_line h _ bank hid, step_writeByte_line h _ other hid]
  simp only [run_nil, command, htable]

/-- **A call does what it does through the registers.** -/
theorem run_throughRegisters {op : Operation} {accesses : List Operation}
    (hop : op.ThroughRegisters accesses) (h : Handler σ) (c : Controller σ) :
    (c.run h accesses).2 = (c.step h op).2 := by
  cases hop with
  | attributesFirst hid priority attributes =>
    refine run_writeByte_writeByte h c .attributes .priority hid _ _ rfl fun l => ?_
    simp [Bank.write, LineTable.effect]
  | priorityFirst hid priority attributes =>
    refine run_writeByte_writeByte h c .priority .attributes hid _ _ rfl fun l => ?_
    simp [Bank.write, LineTable.effect]
  | enable hid => exact step_writeByte_line h c .enable hid 1
  | disable hid => exact step_writeByte_line h c .enable hid 0
  | @setPending id hid value hvalue =>
    have hset : Bank.pending.write id value = .setPending id := if_neg hvalue
    have hwrite := step_writeByte_line h c .pending hid value
    rw [hset] at hwrite
    exact hwrite
  | clearPending hid => exact step_writeByte_line h c .pending hid 0
  | setThreshold context level => exact step_writeByte_threshold h c context level
  | poll context => rfl

/-- A call through the registers is a claim, or writes to registers of what it names. -/
theorem accesses_of_throughRegisters {op : Operation} {accesses : List Operation}
    (hop : op.ThroughRegisters accesses) :
    (∃ context, op = .poll context ∧ accesses = [.poll context]) ∨
      ∃ k, op.client? = some k ∧ ∀ access ∈ accesses,
        ∃ (r : Register) (value : UInt8) (lines contexts : Nat), r.Mapped lines contexts ∧
          r.client = k ∧ access = .writeByte r.offset value := by
  have hline (bank : Bank) {id : Nat} (hid : id < bankSize) (value : UInt8) :
      ∃ (r : Register) (value' : UInt8) (lines contexts : Nat), r.Mapped lines contexts ∧
        r.client = .line id ∧
          Operation.writeByte (bank.base + id) value = .writeByte r.offset value' :=
    ⟨.line bank id, value, id + 1, 0, ⟨Nat.lt_succ_self id, hid⟩, rfl, rfl⟩
  cases hop with
  | @attributesFirst id hid priority attributes =>
    exact .inr ⟨.line id, rfl, List.forall_mem_cons.mpr ⟨hline .attributes hid attributes.toByte,
      List.forall_mem_singleton.mpr (hline .priority hid priority)⟩⟩
  | @priorityFirst id hid priority attributes =>
    exact .inr ⟨.line id, rfl, List.forall_mem_cons.mpr ⟨hline .priority hid priority,
      List.forall_mem_singleton.mpr (hline .attributes hid attributes.toByte)⟩⟩
  | @enable id hid => exact .inr ⟨.line id, rfl, List.forall_mem_singleton.mpr (hline .enable hid 1)⟩
  | @disable id hid =>
    exact .inr ⟨.line id, rfl, List.forall_mem_singleton.mpr (hline .enable hid 0)⟩
  | @setPending id hid value hvalue =>
    exact .inr ⟨.line id, rfl, List.forall_mem_singleton.mpr (hline .pending hid value)⟩
  | @clearPending id hid =>
    exact .inr ⟨.line id, rfl, List.forall_mem_singleton.mpr (hline .pending hid 0)⟩
  | setThreshold context level =>
    refine .inr ⟨.context context, rfl, List.forall_mem_singleton.mpr ?_⟩
    exact ⟨.threshold context, level, 0, context + 1, Nat.lt_succ_self context, rfl, rfl⟩
  | poll context => exact .inl ⟨context, rfl, rfl⟩

/-- What a refused operation names does not exist, and so has no registers. -/
theorem not_mapped_of_refused {op : Operation} {k : Client} (hk : op.client? = some k)
    {e : Error} (hrefused : (c.step h op).1 = .error e) {r : Register} (hr : r.client = k) :
    ¬ r.Mapped c.table.size c.thresholds.size := by
  cases op with
  | access a =>
    obtain ⟨id, ha, rfl⟩ := Option.map_eq_some_iff.mp hk
    have haccess : (c.table.access a).1 = .error e := Error.map_eq_error_iff.mp hrefused
    obtain ⟨id', hid', hle, -⟩ := LineTable.fst_access_eq_error_iff.mp haccess
    obtain rfl : id = id' := Option.some.inj (ha.symm.trans hid')
    cases r with
    | line bank id =>
      cases hr
      exact fun hmapped => Nat.not_lt.mpr hle hmapped.1
    | threshold context => cases hr
  | setThreshold context level | threshold context | blocked priority context =>
    obtain rfl := Option.some.inj hk
    have hle := ((step_eq_error_iff_of_context rfl).mp hrefused).1
    cases r with
    | line bank id => cases hr
    | threshold context =>
      cases hr
      exact Nat.not_lt.mpr hle
  | selectNext | pendingRequest | poll | drain | awaitService | measureLatency | reset | load
  | store | storeBytes | sampleAll | isRequesting | size | serviceCount => cases hk

/-- **A call that is refused is made of writes that change nothing.** -/
theorem step_of_refused {op : Operation} {accesses : List Operation}
    (hop : op.ThroughRegisters accesses) {h : Handler σ} {e : Error}
    (hrefused : (c.step h op).1 = .error e) : ∀ access ∈ accesses, (c.step h access).2 = c := by
  rcases accesses_of_throughRegisters hop with ⟨context, rfl, rfl⟩ | ⟨k, hk, hwrites⟩
  · exact List.forall_mem_singleton.mpr (snd_step_of_context rfl hrefused)
  · intro access haccess
    obtain ⟨r, value, lines, contexts, hr, hclient, rfl⟩ := hwrites access haccess
    rw [step_writeByte, writeByte_offset c hr]
    exact writeRegister_of_not_mapped hr (not_mapped_of_refused hk hrefused hclient) value

/-! ## Calls one after another -/

/-- Each operation of a run is answered. -/
theorem length_fst_run (h : Handler σ) (c : Controller σ) (ops : List Operation) :
    (c.run h ops).1.length = ops.length := by
  induction ops generalizing c with
  | nil => rfl
  | cons op ops ih => simp [ih]

theorem pollAnswers_append (h : Handler σ) (c : Controller σ) (first second : List Operation) :
    pollAnswers (first ++ second) (c.run h (first ++ second)).1 =
      pollAnswers first (c.run h first).1 ++
        pollAnswers second ((c.run h first).2.run h second).1 := by
  rw [run_append, pollAnswers, List.zip_append (length_fst_run h c first).symm, List.filter_append,
    List.map_append]
  rfl

/-- Where nothing is dispatched, nothing is delivered and no poll answered. -/
theorem quiet_of_not_dispatches (h : Handler σ) (c : Controller σ) {ops : List Operation}
    (hops : ∀ op ∈ ops, op.dispatches = false) :
    c.deliveries h ops = [] ∧ pollAnswers ops (c.run h ops).1 = [] := by
  constructor
  · induction ops generalizing c with
    | nil => rfl
    | cons op ops ih =>
      have hsplit := deliveries_append h c [op] ops
      rw [deliveries_singleton, delivered_events_of_not_dispatches h c (hops op List.mem_cons_self),
        ih _ fun op' hop' => hops op' (List.mem_cons_of_mem op hop')] at hsplit
      exact hsplit
  · rw [pollAnswers, List.map_eq_nil_iff, List.filter_eq_nil_iff]
    intro x hx
    have hop := hops x.1 (List.of_mem_zip hx).1
    cases hx1 : x.1 <;> simp_all [Operation.dispatches, Operation.isPoll]

/-- What a client of a line or a context does is no dispatch. -/
theorem dispatches_of_client? {op : Operation} {k : Client} (hk : op.client? = some k) :
    op.dispatches = false := by
  cases op <;> simp_all [Operation.client?, Operation.dispatches]

/-- A call delivers what it delivers through the registers, and a poll is answered alike. -/
theorem deliveries_throughRegisters {op : Operation} {accesses : List Operation}
    (hop : op.ThroughRegisters accesses) (h : Handler σ) (c : Controller σ) :
    c.deliveries h accesses = c.deliveries h [op] ∧
      pollAnswers accesses (c.run h accesses).1 = pollAnswers [op] (c.run h [op]).1 := by
  rcases accesses_of_throughRegisters hop with ⟨context, rfl, rfl⟩ | ⟨k, hk, hwrites⟩
  · exact ⟨rfl, rfl⟩
  · have haccesses : ∀ access ∈ accesses, access.dispatches = false := by
      intro access haccess
      obtain ⟨r, value, -, -, -, -, rfl⟩ := hwrites access haccess
      rfl
    have hcall : ∀ op' ∈ [op], op'.dispatches = false :=
      List.forall_mem_singleton.mpr (dispatches_of_client? hk)
    obtain ⟨hdeliveries, hanswers⟩ := quiet_of_not_dispatches h c haccesses
    obtain ⟨hdeliveries', hanswers'⟩ := quiet_of_not_dispatches h c hcall
    exact ⟨hdeliveries.trans hdeliveries'.symm, hanswers.trans hanswers'.symm⟩

/-- **Calls do what they do through the registers**, in a run of any length. -/
theorem run_replays {calls accesses : List Operation} (hreplays : Replays calls accesses)
    (h : Handler σ) (c : Controller σ) :
    (c.run h accesses).2 = (c.run h calls).2 ∧
      c.deliveries h accesses = c.deliveries h calls ∧
      pollAnswers accesses (c.run h accesses).1 = pollAnswers calls (c.run h calls).1 := by
  induction hreplays generalizing c with
  | nil => exact ⟨rfl, rfl, rfl⟩
  | @cons op calls accesses rest hop _ ih =>
    have hstep : (c.run h accesses).2 = (c.run h [op]).2 := run_throughRegisters hop h c
    obtain ⟨hdeliveries, hanswers⟩ := deliveries_throughRegisters hop h c
    obtain ⟨hend, hrest, hrestAnswers⟩ := ih (c.run h [op]).2
    rw [← List.singleton_append, deliveries_append, deliveries_append, pollAnswers_append,
      pollAnswers_append, run_append, run_append, hstep]
    exact ⟨hend, congrArg₂ _ hdeliveries hrest, congrArg₂ _ hanswers hrestAnswers⟩

/-! ## What the registers show -/

/-- The registers show what the questions answer: those of a line its state, and those of a context
its threshold. What does not exist reads as 0. -/
structure RegistersShow (c : Controller σ) : Prop where
  line : ∀ (id : Nat) (l : Line), id < bankSize → c.table.line id = .ok l →
    c.readByte (pendingBank + id) = l.pending.toUInt8 ∧
      c.readByte (enableBank + id) = l.enabled.toUInt8 ∧
      c.readByte (attributeBank + id) = l.attributes.toByte ∧
      c.readByte (priorityBank + id) = l.priority
  noLine : ∀ (id : Nat) (e : Error), id < bankSize → c.table.line id = .error e →
    ∀ bank : Bank, c.readByte (bank.base + id) = 0
  threshold : ∀ (context : Nat) (level : UInt8), c.thresholds.get context = .ok level →
    c.readByte (thresholdBase + context * contextStride) = level
  noContext : ∀ (context : Nat) (e : Error), c.thresholds.get context = .error e →
    c.readByte (thresholdBase + context * contextStride) = 0

/-- In every state the registers show lines and thresholds. -/
theorem registersShow (c : Controller σ) : c.RegistersShow := by
  have hbank (bank : Bank) {id : Nat} (hid : id < bankSize) :
      c.readByte (bank.base + id) = (c.table.lines[id]?.map (Bank.read · bank)).getD 0 := by
    have hr : Register.Mapped (id + 1) 0 (.line bank id) := ⟨Nat.lt_succ_self id, hid⟩
    exact readByte_offset c hr
  have hthreshold (context : Nat) : c.readByte (thresholdBase + context * contextStride) =
      (c.thresholds.levels[context]?).getD 0 := by
    have hr : Register.Mapped 0 (context + 1) (.threshold context) := Nat.lt_succ_self context
    exact readByte_offset c hr
  constructor
  case line =>
    intro id l hid hl
    rw [LineTable.line_eq_ok_iff] at hl
    have hread (bank : Bank) : c.readByte (bank.base + id) = bank.read l := by
      rw [hbank bank hid, hl]
      rfl
    exact ⟨hread .pending, hread .enable, hread .attributes, hread .priority⟩
  case noLine =>
    intro id e hid he bank
    have hmissing : c.table.lines.size ≤ id := (LineTable.line_eq_error_iff.mp he).1
    rw [hbank bank hid, Array.getElem?_eq_none hmissing]
    rfl
  case threshold =>
    intro context level hlevel
    rw [hthreshold, Thresholds.get_eq_ok_iff.mp hlevel]
    rfl
  case noContext =>
    intro context e he
    have hmissing : c.thresholds.levels.size ≤ context := (Thresholds.get_eq_error_iff.mp he).1
    rw [hthreshold, Array.getElem?_eq_none hmissing]
    rfl

/-- **The registers are a front end of the same controller.** Let calls that configure, enable,
disable, raise and withdraw requests and set thresholds be made one after another, with polls between
them, and let the same be done through the registers. Both ways end in the same controller, the
handler receives the same deliveries, and the polls are answered alike. A call that is refused for
want of a line or a context is made of writes that change nothing. After any calls the registers
show what the questions answer. -/
theorem registers_replay_calls (h : Handler σ) (c : Controller σ) (calls accesses : List Operation)
    (hreplays : Replays calls accesses) :
    (c.run h accesses).2 = (c.run h calls).2 ∧
      c.deliveries h accesses = c.deliveries h calls ∧
      pollAnswers accesses (c.run h accesses).1 = pollAnswers calls (c.run h calls).1 ∧
      (∀ (d : Controller σ) (op : Operation) (writes : List Operation) (e : Error),
        op.ThroughRegisters writes → (d.step h op).1 = .error e →
          ∀ write ∈ writes, (d.step h write).2 = d) ∧
      (c.run h calls).2.RegistersShow := by
  obtain ⟨hend, hdeliveries, hanswers⟩ := run_replays hreplays h c
  exact ⟨hend, hdeliveries, hanswers, fun d op writes e hop he => step_of_refused hop he,
    registersShow _⟩

/-- Two lines are configured, in both orders of the bytes, and a priority loses the bits that do not
exist. Of two contexts one has a threshold that blocks the second line. A third line and a third
context do not exist; the calls that name them fail. -/
theorem registers_replay_calls_of_refused :
    let h : Handler Unit := .acknowledging .passive
    let c := ((ofGeometry { lines := 2, contexts := 2, priorityBits := 4 } ()).run h
      [.access (.command (.sample 1 true)), .poll 0]).2
    let command (cmd : Command) : Operation := .access (.command cmd)
    let calls : List Operation :=
      [command (.configure 0 19 ⟨.edge, .negative⟩), command (.configure 1 5 ⟨.level, .positive⟩),
        command (.enable 0), command (.enable 1), command (.setPending 0), command (.setPending 2),
        .setThreshold 1 4, .setThreshold 2 9, .poll 1, .poll 2, .poll 1, command (.disable 0),
        command (.clearPending 1), .poll 0]
    let accesses : List Operation := List.flatten
      [[.writeByte 0x800 2, .writeByte 0xC00 19], [.writeByte 0xC01 5, .writeByte 0x801 4],
        [.writeByte 0x400 1], [.writeByte 0x401 1], [.writeByte 0x000 64], [.writeByte 0x002 1],
        [.writeByte 0x2000 4], [.writeByte 0x3000 9], [.poll 1], [.poll 2], [.poll 1],
        [.writeByte 0x400 0], [.writeByte 0x001 0], [.poll 0]]
    Replays calls accesses ∧ (c.run h accesses).2 = (c.run h calls).2 ∧
      c.deliveries h accesses = [⟨0, 3, 1⟩] ∧
      pollAnswers accesses (c.run h accesses).1 =
        [.ok (.delivery (some ⟨0, 3, 1⟩)), .error (.invalidContext 2 2), .ok (.delivery none),
          .ok (.delivery none)] := by
  intro h c command calls accesses
  have hid {id : Nat} (hlt : id < 3) : id < bankSize := Nat.lt_trans hlt (by decide)
  have hreplays : Replays calls accesses :=
    .cons (.attributesFirst (hid (by decide)) 19 ⟨.edge, .negative⟩) <|
    .cons (.priorityFirst (hid (by decide)) 5 ⟨.level, .positive⟩) <|
    .cons (.enable (hid (by decide))) <| .cons (.enable (hid (by decide))) <|
    .cons (.setPending (hid (by decide)) (by decide)) <|
    .cons (.setPending (hid (by decide)) (by decide)) <|
    .cons (.setThreshold 1 4) <| .cons (.setThreshold 2 9) <|
    .cons (.poll 1) <| .cons (.poll 2) <| .cons (.poll 1) <| .cons (.disable (hid (by decide))) <|
    .cons (.clearPending (hid (by decide))) <| .cons (.poll 0) .nil
  obtain ⟨hend, hdeliveries, hanswers, -, -⟩ := registers_replay_calls h c calls accesses hreplays
  exact ⟨hreplays, hend, hdeliveries.trans (by decide +kernel), hanswers.trans (by decide +kernel)⟩

end Controller

end Irq
