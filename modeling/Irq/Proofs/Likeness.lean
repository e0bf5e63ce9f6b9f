import Irq.Proofs.CallLog
import Irq.Proofs.Untimed

/-!
# Irq.Proofs.Likeness

Two controllers that stay alike whatever is asked of them. A likeness is a relation under which two
controllers differ in clock, stamps and waits at most, and which none of the things that can happen
to both of them breaks. Then every operation answers the same on both, apart from what it shows of
clock and stamps, and leaves them alike (`step`); so does every run (`run`), and the handlers of
both receive the same deliveries in it (`deliveries`).
-/

namespace Irq.Controller

variable {σ τ : Type}

/-- A relation between controllers that nothing breaks, and under which they differ in clock, stamps
and waits at most. -/
structure Likeness (h : Handler σ) (h' : Handler τ) (R : Controller σ → Controller τ → Prop) :
    Prop where
  table : ∀ {c d}, R c d → c.table.untimed = d.table.untimed
  thresholds : ∀ {c d}, R c d → c.thresholds = d.thresholds
  count : ∀ {c d}, R c d → ∀ line, c.record.count line = d.record.count line
  command : ∀ {c d}, R c d → ∀ cmd, R (c.command cmd).2 (d.command cmd).2
  threshold : ∀ {c d}, R c d → ∀ context level,
    R (c.setThreshold context level).2 (d.setThreshold context level).2
  reset : ∀ {c d}, R c d → R c.reset d.reset
  tick : ∀ {c d}, R c d → R c.tick d.tick
  serve : ∀ {c d}, R c d → ∀ delivery, R (c.serve h delivery) (d.serve h' delivery)

/-- Whether two controllers whose handlers keep logs of their calls are related but for the logs,
and the logs have the same deliveries. -/
def LogsAlike (R : Controller σ → Controller τ → Prop) (c : Controller (σ × List Call))
    (d : Controller (τ × List Call)) : Prop :=
  R (c.mapMemory Prod.fst) (d.mapMemory Prod.fst) ∧
    c.memory.2.map Call.delivery = d.memory.2.map Call.delivery

/-- Two controllers that are alike are alike with empty logs. -/
theorem logsAlike_withLog {R : Controller σ → Controller τ → Prop} {c : Controller σ}
    {d : Controller τ} (hR : R c d) : LogsAlike R c.withLog d.withLog := ⟨hR, rfl⟩

/-- Where every byte reads the same, all of them do. -/
theorem loadBytes_congr {c : Controller σ} {d : Controller τ}
    (hread : ∀ offset, c.readByte offset = d.readByte offset) (n offset : Nat) :
    (Bus.loadBytes n offset c).1 = (Bus.loadBytes n offset d).1 := by
  induction n generalizing offset with
  | zero => rfl
  | succ n ih => simp only [Bus.loadBytes, load_eq, hread, ih]

theorem setThreshold_mapMemory (f : σ → τ) (c : Controller σ) (context : Nat) (level : UInt8) :
    ((c.mapMemory f).setThreshold context level).2 =
      (c.setThreshold context level).2.mapMemory f := by
  simp only [setThreshold, mapMemory]
  split <;> rfl

theorem memory_setThreshold (c : Controller σ) (context : Nat) (level : UInt8) :
    (c.setThreshold context level).2.memory = c.memory := by
  unfold setThreshold
  split <;> rfl

namespace Likeness

variable {h : Handler σ} {h' : Handler τ} {R : Controller σ → Controller τ → Prop}
  {c : Controller σ} {d : Controller τ}

/-! ## Questions -/

theorem size (L : Likeness h h' R) (hR : R c d) : c.table.size = d.table.size := by
  rw [← LineTable.size_untimed, L.table hR, LineTable.size_untimed]

theorem winner (L : Likeness h h' R) (hR : R c d) (threshold : UInt8) :
    c.table.winner threshold = d.table.winner threshold := by
  rw [← LineTable.winner_untimed, L.table hR, LineTable.winner_untimed]

/-- An access to the table is answered the same, times left aside. -/
theorem access (L : Likeness h h' R) (hR : R c d) (a : Access) :
    (c.table.access a).1.map Answer.untimed = (d.table.access a).1.map Answer.untimed := by
  rw [LineTable.untimed_access, L.table hR, ← LineTable.untimed_access]

theorem register? (L : Likeness h h' R) (hR : R c d) (offset : Nat) :
    c.register? offset = d.register? offset := by
  unfold Controller.register?
  rw [L.size hR, L.thresholds hR]

/-- Every byte reads the same. -/
theorem readByte (L : Likeness h h' R) (hR : R c d) (offset : Nat) :
    c.readByte offset = d.readByte offset := by
  have hread : c.readRegister = d.readRegister := by
    funext r
    cases r with
    | line bank id =>
      have hline {t : LineTable} : t.untimed.lines[id]?.map (Registers.Bank.read · bank) =
          t.lines[id]?.map (Registers.Bank.read · bank) := by
        rw [LineTable.getElem?_untimed, Option.map_map]
        exact Option.map_congr fun l _ => Registers.read_untimed l bank
      simp only [readRegister]
      rw [← hline, L.table hR, hline]
    | threshold context =>
      simp only [readRegister]
      rw [L.thresholds hR]
  unfold Controller.readByte
  rw [L.register? hR, hread]

/-! ## Changes -/

/-- Alike controllers are alike to loops as well. -/
theorem simulation (L : Likeness h h' R) : Simulation h h' R where
  thresholds := L.thresholds
  size := L.size
  count := L.count
  raise := fun hR line => L.command hR (.setPending line)
  cycle := by
    intro c d hR context threshold
    have hwinner := L.winner (L.tick hR) threshold
    unfold cycle
    rw [hwinner]
    cases d.tick.table.winner threshold with
    | none => exact ⟨rfl, L.tick hR⟩
    | some r => exact ⟨rfl, L.serve (L.tick hR) (r.on context)⟩

/-- Commands keep the two alike. -/
theorem commands (L : Likeness h h' R) (hR : R c d) (cmds : List Command) :
    R { c with table := c.table.applyAll cmds } { d with table := d.table.applyAll cmds } := by
  induction cmds generalizing c d with
  | nil => exact hR
  | cons cmd cmds ih => exact ih (L.command hR cmd)

/-- A write keeps the two alike. -/
theorem writeByte (L : Likeness h h' R) (hR : R c d) (offset : Nat) (value : UInt8) :
    R (c.writeByte offset value) (d.writeByte offset value) := by
  unfold Controller.writeByte
  rw [L.register? hR]
  cases d.register? offset with
  | none => exact hR
  | some r =>
    cases r with
    | line bank id => exact L.command hR (bank.write id value)
    | threshold context => exact L.threshold hR context value

/-- A write of several bytes keeps the two alike. -/
theorem storeBytes (L : Likeness h h' R) (hR : R c d) (bytes : List UInt8) (offset : Nat) :
    R (Bus.storeBytes bytes offset c) (Bus.storeBytes bytes offset d) := by
  induction bytes generalizing offset c d with
  | nil => exact hR
  | cons b bs ih => exact ih (L.writeByte hR offset b) (offset + 1)

/-! ## Operations and runs -/

/-- **Every operation answers the same on both, and leaves them alike.** -/
theorem step (L : Likeness h h' R) (hR : R c d) (op : Operation) :
    (c.step h op).1.map Response.untimed = (d.step h' op).1.map Response.untimed ∧
      R (c.step h op).2 (d.step h' op).2 := by
  have S := L.simulation
  have hsame {α : Type} {x : Except Error α × Controller σ} {y : Except Error α × Controller τ}
      (hxy : Agree R x y) (f : α → Response) :
      (x.1.map f).map Response.untimed = (y.1.map f).map Response.untimed ∧ R x.2 y.2 :=
    ⟨by rw [hxy.1], hxy.2⟩
  cases op with
  | access a =>
    have hanswer := L.access hR a
    have hmap (x : Except Error Answer) : (x.map Response.answer).map Response.untimed =
        (x.map Answer.untimed).map Response.answer := by
      cases x <;> rfl
    refine ⟨?_, ?_⟩
    · show ((c.table.access a).1.map Response.answer).map Response.untimed =
        ((d.table.access a).1.map Response.answer).map Response.untimed
      rw [hmap, hmap, hanswer]
    · cases a with
      | command cmd => exact L.command hR cmd
      | isPending _ | isEnabled _ | line _ | lineText _ | summary => exact hR
  | setThreshold context level =>
    have hset := L.threshold hR context level
    refine ⟨?_, hset⟩
    simp only [Controller.step, setThreshold, L.thresholds hR]
    cases d.thresholds.set context level <;> rfl
  | threshold _ | blocked _ _ =>
    refine ⟨?_, hR⟩
    simp only [Controller.step, L.thresholds hR]
  | selectNext context =>
    refine ⟨?_, hR⟩
    simp only [Controller.step, selectNext, L.thresholds hR, L.winner hR]
  | pendingRequest context =>
    refine ⟨?_, hR⟩
    simp only [Controller.step, pendingRequest, L.thresholds hR, L.winner hR]
  | poll context => exact hsame (S.poll context hR) Response.delivery
  | drain context maxPolls => exact hsame (S.drain context maxPolls hR) Response.drained
  | awaitService context line maxPolls =>
    exact hsame (S.awaitService context line maxPolls hR) Response.number
  | measureLatency context line plan =>
    exact hsame (S.measureLatency context line plan hR) Response.report
  | reset => exact ⟨rfl, L.reset hR⟩
  | load width offset =>
    simp only [Controller.step, Bus.load, snd_loadBytes]
    rw [loadBytes_congr (L.readByte hR)]
    exact ⟨rfl, hR⟩
  | store width offset value => exact ⟨rfl, L.storeBytes hR _ offset⟩
  | storeBytes offset bytes => exact ⟨rfl, L.storeBytes hR bytes offset⟩
  | sampleAll signals => exact ⟨rfl, L.commands hR _⟩
  | isRequesting =>
    refine ⟨?_, hR⟩
    simp only [Controller.step, isRequesting, L.thresholds hR, L.winner hR]
  | size =>
    refine ⟨?_, hR⟩
    simp only [Controller.step, L.thresholds hR, L.size hR]
  | serviceCount line =>
    refine ⟨?_, hR⟩
    simp only [Controller.step, L.count hR]

/-- **Every run answers the same on both, and leaves them alike.** -/
theorem run (L : Likeness h h' R) (hR : R c d) (ops : List Operation) :
    (c.run h ops).1.map (Except.map Response.untimed) =
        (d.run h' ops).1.map (Except.map Response.untimed) ∧
      R (c.run h ops).2 (d.run h' ops).2 := by
  induction ops generalizing c d with
  | nil => exact ⟨rfl, hR⟩
  | cons op ops ih =>
    obtain ⟨hanswer, hnext⟩ := L.step hR op
    obtain ⟨hanswers, hend⟩ := ih hnext
    refine ⟨?_, hend⟩
    rw [run_cons, run_cons, List.map_cons, List.map_cons, hanswer, hanswers]

/-! ## Deliveries -/

/-- Controllers that are alike are so as well when their handlers keep logs of their calls. -/
theorem logged (L : Likeness h h' R) : Likeness h.logged h'.logged (LogsAlike R) where
  table := fun hR => L.table hR.1
  thresholds := fun hR => L.thresholds hR.1
  count := fun hR => L.count hR.1
  command := fun hR cmd => ⟨L.command hR.1 cmd, hR.2⟩
  threshold := by
    intro c d hR context level
    unfold LogsAlike
    rw [← setThreshold_mapMemory, ← setThreshold_mapMemory, memory_setThreshold,
      memory_setThreshold]
    exact ⟨L.threshold hR.1 context level, hR.2⟩
  reset := fun hR => ⟨L.reset hR.1, hR.2⟩
  tick := fun hR => ⟨L.tick hR.1, hR.2⟩
  serve := by
    intro c d hR delivery
    refine ⟨?_, ?_⟩
    · rw [← serve_mapMemory (Handler.through_fst h), ← serve_mapMemory (Handler.through_fst h')]
      exact L.serve hR.1 delivery
    · show (c.memory.2 ++ [_]).map Call.delivery = (d.memory.2 ++ [_]).map Call.delivery
      rw [List.map_append, List.map_append, hR.2]
      rfl

/-- **The handlers of both receive the same deliveries.** -/
theorem deliveries (L : Likeness h h' R) (hR : R c d) (ops : List Operation) :
    c.deliveries h ops = d.deliveries h' ops :=
  (L.logged.run (logsAlike_withLog hR) ops).2.2

end Likeness

end Irq.Controller
