import Irq.Controller.Waiting

/-!
# Irq.Proofs.Simulation

Two controllers side by side, each with its handler. A simulation is a relation between them that
no dispatch cycle and no raised request can break, and under which the cycles of both come to the
same. Then so do all operations that poll, however often and for however long they poll: the loops
see of a controller only what a simulation makes equal.
-/

namespace Irq.Controller

variable {σ τ : Type}

/-- Two outcomes with the same result, and controllers that stay related. -/
def Agree {α : Type} (R : Controller σ → Controller τ → Prop) (x : α × Controller σ)
    (y : α × Controller τ) : Prop := x.1 = y.1 ∧ R x.2 y.2

/-- A relation between controllers that dispatch cannot break. -/
structure Simulation (h : Handler σ) (h' : Handler τ) (R : Controller σ → Controller τ → Prop) :
    Prop where
  thresholds : ∀ {c d}, R c d → c.thresholds = d.thresholds
  size : ∀ {c d}, R c d → c.table.size = d.table.size
  count : ∀ {c d}, R c d → ∀ line, c.record.count line = d.record.count line
  raise : ∀ {c d}, R c d → ∀ line,
    R (c.command (.setPending line)).2 (d.command (.setPending line)).2
  cycle : ∀ {c d}, R c d → ∀ context threshold,
    Agree R (cycle h context threshold c) (cycle h' context threshold d)

/-- A cycle delivers the winner of the table that it finds. -/
theorem fst_cycle (h : Handler σ) (context : Nat) (threshold : UInt8) (c : Controller σ) :
    (cycle h context threshold c).1 = (c.table.winner threshold).map (Request.on · context) := by
  cases hr : c.table.winner threshold with
  | none => rw [cycle_of_none h context hr, Option.map_none]
  | some r => rw [cycle_of_some h context hr, Option.map_some]

/-- A command to a line succeeds exactly when the line exists. -/
theorem fst_command (c : Controller σ) {cmd : Command} {id : Nat} (hid : cmd.line? = some id) :
    (c.command cmd).1 =
      if id < c.table.size then .ok () else .error (.invalidLine id c.table.size) := by
  simp only [command, LineTable.run, hid]
  split
  · next hlt =>
    rw [LineTable.modify_of_lt _ hlt]
    rfl
  · next hle =>
    rw [LineTable.modify_of_le _ (Nat.not_lt.mp hle)]
    rfl

/-- Either a line is found, or its number is not below the size of the table. -/
theorem line_cases (t : LineTable) (id : Nat) :
    (∃ l, t.line id = .ok l ∧ id < t.size) ∨
      (t.line id = .error (.invalidLine id t.size) ∧ t.size ≤ id) := by
  cases hl : t.line id with
  | ok l =>
    obtain ⟨hlt, -⟩ := Array.getElem?_eq_some_iff.mp (LineTable.line_eq_ok_iff.mp hl)
    exact .inl ⟨l, rfl, hlt⟩
  | error e =>
    obtain ⟨hle, rfl⟩ := LineTable.line_eq_error_iff.mp hl
    exact .inr ⟨rfl, hle⟩

namespace Simulation

variable {h : Handler σ} {h' : Handler τ} {R : Controller σ → Controller τ → Prop}
  {c : Controller σ} {d : Controller τ}

/-- On both sides there is a winner, or on neither. -/
theorem winner (S : Simulation h h' R) (hR : R c d) (threshold : UInt8) :
    (c.table.winner threshold).isNone = (d.table.winner threshold).isNone := by
  have hcycle := (S.cycle hR 0 threshold).1
  rw [fst_cycle, fst_cycle] at hcycle
  have hnone := congrArg Option.isNone hcycle
  rwa [Option.isNone_map, Option.isNone_map] at hnone

/-- Repeated cycles agree, if they stop for the same reasons. -/
theorem cyclesUntil (S : Simulation h h' R) (context : Nat) (threshold : UInt8)
    (stop : Option Delivery → Controller σ → Bool) (stop' : Option Delivery → Controller τ → Bool)
    (hstop : ∀ outcome c d, R c d → stop outcome c = stop' outcome d) (budget : Nat)
    (earlier : List (Option Delivery)) (hR : R c d) :
    Agree R (cyclesUntil h context threshold stop budget earlier c)
      (cyclesUntil h' context threshold stop' budget earlier d) := by
  induction budget generalizing earlier c d with
  | zero => exact ⟨rfl, hR⟩
  | succ budget ih =>
    obtain ⟨hout, hnext⟩ := S.cycle hR context threshold
    simp only [cyclesUntil_succ]
    rw [hout, hstop _ _ _ hnext]
    split
    · exact ⟨rfl, hnext⟩
    · exact ih _ hnext

theorem poll (S : Simulation h h' R) (context : Nat) (hR : R c d) :
    Agree R (c.poll h context) (d.poll h' context) := by
  unfold Controller.poll
  rw [S.thresholds hR]
  cases d.thresholds.get context with
  | error e => exact ⟨rfl, hR⟩
  | ok threshold =>
    obtain ⟨hout, hnext⟩ := S.cycle hR context threshold
    exact ⟨congrArg Except.ok hout, hnext⟩

theorem drain (S : Simulation h h' R) (context maxPolls : Nat) (hR : R c d) :
    Agree R (c.drain h context maxPolls) (d.drain h' context maxPolls) := by
  unfold Controller.drain
  rw [S.thresholds hR]
  cases d.thresholds.get context with
  | error e => exact ⟨rfl, hR⟩
  | ok threshold =>
    obtain ⟨hout, hnext⟩ := S.cyclesUntil context threshold (fun outcome _ => outcome.isNone)
      (fun outcome _ => outcome.isNone) (fun _ _ _ _ => rfl) maxPolls [] hR
    refine ⟨?_, hnext⟩
    dsimp only
    rw [hout, S.winner hnext]

theorem awaitService (S : Simulation h h' R) (context line maxPolls : Nat) (hR : R c d) :
    Agree R (c.awaitService h context line maxPolls) (d.awaitService h' context line maxPolls) := by
  have hcount := S.count hR line
  unfold Controller.awaitService
  rcases line_cases c.table line with ⟨l, hl, hlt⟩ | ⟨hl, hle⟩
  · rcases line_cases d.table line with ⟨l', hl', -⟩ | ⟨-, hle'⟩
    · rw [hl, hl', S.thresholds hR]
      cases d.thresholds.get context with
      | error e => exact ⟨rfl, hR⟩
      | ok threshold =>
        obtain ⟨hout, hnext⟩ := S.cyclesUntil context threshold
          (fun _ c' => c.record.count line < c'.record.count line)
          (fun _ d' => d.record.count line < d'.record.count line)
          (fun _ c' d' hR' => by rw [hcount, S.count hR' line]) maxPolls [] hR
        dsimp only
        rw [hout, S.count hnext line, hcount]
        split <;> exact ⟨rfl, hcount ▸ hnext⟩
    · have hsize := S.size hR
      omega
  · rcases line_cases d.table line with ⟨_, _, hlt'⟩ | ⟨hl', -⟩
    · have hsize := S.size hR
      omega
    · rw [hl, hl', S.size hR]
      exact ⟨rfl, hR⟩

theorem runTrials (S : Simulation h h' R) (context trials : Nat) (report : LatencyReport)
    (hR : R c d) :
    Agree R (runTrials h context trials report c) (runTrials h' context trials report d) := by
  induction trials generalizing report c d with
  | zero => exact ⟨rfl, hR⟩
  | succ trials ih =>
    have hres : (c.command (.setPending report.line)).1 =
        (d.command (.setPending report.line)).1 := by
      rw [fst_command c rfl, fst_command d rfl, S.size hR]
    have hraise := S.raise hR report.line
    simp only [Controller.runTrials]
    generalize c.command (.setPending report.line) = x at *
    generalize d.command (.setPending report.line) = y at *
    obtain ⟨result, c'⟩ := x
    obtain ⟨result', d'⟩ := y
    cases hres
    cases result with
    | error e => exact ⟨rfl, hraise⟩
    | ok _ =>
      obtain ⟨hans, hwait⟩ := S.awaitService context report.line report.maxPolls hraise
      dsimp only at hans hwait ⊢
      generalize c'.awaitService h context report.line report.maxPolls = x at *
      generalize d'.awaitService h' context report.line report.maxPolls = y at *
      obtain ⟨answer, c''⟩ := x
      obtain ⟨answer', d''⟩ := y
      cases hans
      cases answer with
      | ok polls => exact ih (report.addSample polls) hwait
      | error e =>
        cases e with
        | timeout _ _ => exact ih report.addTimeout hwait
        | invalidLine _ _ | invalidContext _ _ => exact ⟨rfl, hwait⟩

/-- Measurements agree. -/
theorem measureLatency (S : Simulation h h' R) (context line : Nat) (plan : Sampling)
    (hR : R c d) :
    Agree R (c.measureLatency h context line plan) (d.measureLatency h' context line plan) :=
  S.runTrials context plan.trials { line, maxPolls := plan.maxPolls } hR

end Simulation

end Irq.Controller
