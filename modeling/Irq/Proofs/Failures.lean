import Irq.Proofs.Checks
import Irq.Proofs.Moments

/-!
# Irq.Proofs.Failures

When operations fail, why, and what they leave behind. An operation fails for want of the line or
the context that it names, and a wait for want of time; whether something is missing is settled by
the two sizes of the controller alone (`missing`), which nothing changes. What is missing is found
before anything is done, and so a failure of this kind leaves the controller as it was. There is one
exception: a measurement raises a request on its line before the first wait asks for the context.
-/

namespace Irq

/-- The context of an operation that needs a context and no line. -/
def Operation.context? : Operation → Option Nat
  | setThreshold context _ | threshold context | blocked _ context | selectNext context
  | pendingRequest context | poll context | drain context _ => some context
  | access _ | awaitService _ _ _ | measureLatency _ _ _ | reset | load _ _ | store _ _ _
  | storeBytes _ _ | sampleAll _ | isRequesting | size | serviceCount _ => none

namespace Controller

variable {σ : Type} {h : Handler σ} {c : Controller σ} {context line maxPolls : Nat} {e : Error}

/-- What is missing for an operation on a line and a context: the line is asked for first. -/
def missing (c : Controller σ) (line context : Nat) : Option Error :=
  if c.table.size ≤ line then some (.invalidLine line c.table.size)
  else if c.thresholds.size ≤ context then some (.invalidContext context c.thresholds.size)
  else none

/-! ## What is missing -/

/-- What is missing depends on the two sizes alone. -/
theorem missing_congr {d : Controller σ} (hsize : d.table.size = c.table.size)
    (hthresholds : d.thresholds = c.thresholds) (line context : Nat) :
    d.missing line context = c.missing line context := by
  simp only [missing, hsize, hthresholds]

/-- No command makes a line or takes one away. -/
theorem missing_command (c : Controller σ) (cmd : Command) (line context : Nat) :
    (c.command cmd).2.missing line context = c.missing line context :=
  missing_congr (d := (c.command cmd).2) (LineTable.size_apply c.table cmd) rfl line context

/-- Nothing is missing exactly if line and context exist. -/
theorem missing_eq_none_iff :
    c.missing line context = none ↔ line < c.table.size ∧ context < c.thresholds.size := by
  grind [missing]

/-- A line or a context is missing, and nothing else. -/
theorem ne_timeout_of_missing (hmissing : c.missing line context = some e) (l polls : Nat) :
    e ≠ .timeout l polls := by
  grind [missing]

/-! ## Waiting and measuring -/

/-- A wait asks for line and context before it begins. -/
theorem awaitService_of_missing (h : Handler σ) (maxPolls : Nat)
    (hmissing : c.missing line context = some e) :
    c.awaitService h context line maxPolls = (.error e, c) := by
  unfold missing at hmissing
  unfold awaitService
  by_cases hline : c.table.size ≤ line
  · rw [LineTable.line_eq_error_iff.mpr ⟨hline, rfl⟩]
    simp_all
  · rcases line_cases c.table line with ⟨l, hl, -⟩ | ⟨-, hle⟩
    · by_cases hcontext : c.thresholds.size ≤ context
      · rw [hl, Thresholds.get_eq_error_iff.mpr ⟨hcontext, rfl⟩]
        simp_all
      · simp [hline, hcontext] at hmissing
    · exact absurd hle hline

/-- A wait that has begun ends with a service, or for want of time. -/
theorem awaitService_of_present (h : Handler σ) (maxPolls : Nat)
    (hpresent : c.missing line context = none) :
    ((c.awaitService h context line maxPolls).1 = .error e ↔
      e = .timeout line maxPolls ∧
        (c.awaitService h context line maxPolls).2.record.count line ≤ c.record.count line) ∧
      (c.awaitService h context line maxPolls).2.table.size = c.table.size ∧
      (c.awaitService h context line maxPolls).2.thresholds = c.thresholds := by
  obtain ⟨hline, hcontext⟩ := missing_eq_none_iff.mp hpresent
  unfold awaitService
  rcases line_cases c.table line with ⟨l, hl, -⟩ | ⟨-, hle⟩
  · rcases check_cases c.thresholds context with ⟨threshold, -, hget⟩ | ⟨e', -, hget⟩
    · rw [hl, hget]
      have hkeeps := cyclesUntil_invariant h context threshold
        (fun _ d => c.record.count line < d.record.count line)
        (fun d => d.table.size = c.table.size ∧ d.thresholds = c.thresholds)
        (fun d hd => ⟨(size_table_cycle h context threshold d).trans hd.1,
          (thresholds_cycle h context threshold d).trans hd.2⟩) maxPolls [] c ⟨rfl, rfl⟩
      dsimp only
      split
      · next hserved => exact ⟨by simp [Nat.not_le.mpr hserved], hkeeps⟩
      · next hwaiting => exact ⟨by simp [Nat.not_lt.mp hwaiting, eq_comm], hkeeps⟩
    · exact absurd (Thresholds.get_eq_error_iff.mp hget).1 (Nat.not_le.mpr hcontext)
  · exact absurd hle (Nat.not_le.mpr hline)

/-- A measurement raises its request before anything is found missing. -/
theorem runTrials_of_missing (h : Handler σ) (trials : Nat) (report : LatencyReport)
    (hmissing : c.missing report.line context = some e) :
    runTrials h context (trials + 1) report c =
      (.error e, (c.command (.setPending report.line)).2) := by
  have hfst : (c.command (.setPending report.line)).1 = _ := fst_command c rfl
  have hafter : (c.command (.setPending report.line)).2.missing report.line context = some e := by
    rw [missing_command, hmissing]
  rw [runTrials]
  generalize c.command (.setPending report.line) = x at *
  obtain ⟨result, c'⟩ := x
  by_cases hline : report.line < c.table.size
  · rw [if_pos hline] at hfst
    cases hfst
    dsimp only
    rw [awaitService_of_missing h report.maxPolls hafter]
    cases e with
    | timeout l polls => exact absurd rfl (ne_timeout_of_missing hmissing l polls)
    | invalidLine _ _ | invalidContext _ _ => rfl
  · rw [if_neg hline] at hfst
    cases hfst
    rw [missing, if_pos (Nat.not_lt.mp hline), Option.some.injEq] at hmissing
    rw [hmissing]

/-- A measurement of a line that exists, on a context that exists, succeeds. -/
theorem runTrials_of_present (h : Handler σ) (trials : Nat) {report : LatencyReport}
    (hpresent : c.missing report.line context = none) :
    (runTrials h context trials report c).1 ≠ .error e := by
  induction trials generalizing report c with
  | zero => simp [runTrials]
  | succ trials ih =>
    have hfst : (c.command (.setPending report.line)).1 = _ := fst_command c rfl
    rw [if_pos (missing_eq_none_iff.mp hpresent).1] at hfst
    have hafter : (c.command (.setPending report.line)).2.missing report.line context = none := by
      rw [missing_command, hpresent]
    rw [runTrials]
    generalize c.command (.setPending report.line) = x at *
    obtain ⟨result, c'⟩ := x
    cases hfst
    have hwait (e' : Error) := @awaitService_of_present σ c' context report.line e' h
      report.maxPolls hafter
    dsimp only
    generalize c'.awaitService h context report.line report.maxPolls = y at *
    obtain ⟨answer, c''⟩ := y
    have hnext (report' : LatencyReport) (hline : report'.line = report.line) :
        c''.missing report'.line context = none := by
      rw [hline, missing_congr (hwait e).2.1 (hwait e).2.2]
      exact hafter
    cases answer with
    | ok polls => exact ih (hnext (report.addSample polls) rfl)
    | error e' =>
      obtain ⟨rfl, -⟩ := (hwait e').1.mp rfl
      exact ih (hnext report.addTimeout rfl)

/-! ## Every operation -/

/-- **What needs a context fails for want of it**, and else not at all. -/
theorem step_eq_error_iff_of_context {op : Operation} (hop : op.context? = some context) :
    (c.step h op).1 = .error e ↔
      c.thresholds.size ≤ context ∧ e = .invalidContext context c.thresholds.size := by
  rw [← Thresholds.get_eq_error_iff]
  cases op with
  | setThreshold i level =>
    cases hop
    rw [Thresholds.get_eq_error_iff, ← @Thresholds.set_eq_error_iff _ _ level]
    simp only [step, setThreshold]
    cases c.thresholds.set context level <;> simp [Except.map]
  | threshold i => cases hop; exact Error.map_eq_error_iff
  | blocked priority i => cases hop; exact Error.map_eq_error_iff.trans Error.map_eq_error_iff
  | selectNext i => cases hop; exact Error.map_eq_error_iff.trans Error.map_eq_error_iff
  | pendingRequest i => cases hop; exact Error.map_eq_error_iff.trans Error.map_eq_error_iff
  | poll i =>
    cases hop
    have hstep : (c.step h (.poll context)).1 = (c.poll h context).1.map .delivery := rfl
    rw [hstep, Error.map_eq_error_iff, fst_poll]
    exact Error.map_eq_error_iff
  | drain i maxPolls =>
    cases hop
    have hstep : (c.step h (.drain context maxPolls)).1 =
        (c.drain h context maxPolls).1.map .drained := rfl
    rw [hstep, Error.map_eq_error_iff]
    unfold drain
    cases c.thresholds.get context <;> simp
  | access | awaitService | measureLatency | reset | load | store | storeBytes | sampleAll
  | isRequesting | size | serviceCount => cases hop

/-- What needs a context and does not find it changes nothing. -/
theorem snd_step_of_context {op : Operation} (hop : op.context? = some context)
    (hfail : (c.step h op).1 = .error e) : (c.step h op).2 = c := by
  have hget := Thresholds.get_eq_error_iff.mpr ((step_eq_error_iff_of_context hop).mp hfail)
  cases op with
  | setThreshold i level =>
    cases hop
    have hset : c.thresholds.set context level = .error e :=
      Thresholds.set_eq_error_iff.mpr (Thresholds.get_eq_error_iff.mp hget)
    rw [step, setThreshold, hset]
  | poll i => cases hop; rw [step, poll, hget]
  | drain i maxPolls => cases hop; rw [step, drain, hget]
  | threshold | blocked | selectNext | pendingRequest => rfl
  | access | awaitService | measureLatency | reset | load | store | storeBytes | sampleAll
  | isRequesting | size | serviceCount => cases hop

/-- **A wait fails for want of line or context, and else only for want of time**, when the line has
not been serviced. -/
theorem step_awaitService_eq_error_iff :
    (c.step h (.awaitService context line maxPolls)).1 = .error e ↔
      c.missing line context = some e ∨
        c.missing line context = none ∧ e = .timeout line maxPolls ∧
          (c.step h (.awaitService context line maxPolls)).2.record.count line ≤
            c.record.count line := by
  have hstep : c.step h (.awaitService context line maxPolls) =
      ((c.awaitService h context line maxPolls).1.map .number,
        (c.awaitService h context line maxPolls).2) := rfl
  rw [hstep, Error.map_eq_error_iff]
  cases hmissing : c.missing line context with
  | none => simp [(awaitService_of_present h maxPolls hmissing).1]
  | some e' => simp [awaitService_of_missing h maxPolls hmissing]

/-- A measurement that finds something missing has raised its request, and that is all. -/
theorem step_measureLatency_of_missing (h : Handler σ) {plan : Sampling}
    (htrials : plan.trials ≠ 0) (hmissing : c.missing line context = some e) :
    c.step h (.measureLatency context line plan) =
      (.error e, (c.command (.setPending line)).2) := by
  obtain ⟨trials, maxPolls⟩ := plan
  obtain ⟨n, rfl⟩ := Nat.exists_eq_succ_of_ne_zero htrials
  have hrun := runTrials_of_missing h n { line, maxPolls } hmissing
  rw [step, measureLatency, hrun]
  rfl

/-- **A measurement fails exactly for want of line or context.** -/
theorem step_measureLatency_eq_error_iff {plan : Sampling} (htrials : plan.trials ≠ 0) :
    (c.step h (.measureLatency context line plan)).1 = .error e ↔
      c.missing line context = some e := by
  cases hmissing : c.missing line context with
  | some e' => simp [step_measureLatency_of_missing h htrials hmissing]
  | none =>
    have hstep : (c.step h (.measureLatency context line plan)).1 =
        (runTrials h context plan.trials { line, maxPolls := plan.maxPolls } c).1.map .report := rfl
    have hrun : (runTrials h context plan.trials { line, maxPolls := plan.maxPolls } c).1 ≠
        .error e := runTrials_of_present h plan.trials hmissing
    simp [hstep, Error.map_eq_error_iff, hrun]

/-- A command to a line that does not exist is given in vain. -/
theorem command_of_le {cmd : Command} (hcmd : cmd.line? = some line)
    (hle : c.table.size ≤ line) : (c.command cmd).2 = c := by
  have hrun : c.table.run cmd = .error (.invalidLine line c.table.size) :=
    LineTable.run_eq_error_iff.mpr ⟨line, hcmd, hle, rfl⟩
  rw [command, LineTable.apply_of_error hrun]

/-- **A failure leaves nothing behind** but time that was spent in vain, unless a measurement
fails. -/
theorem snd_step_of_failure {op : Operation} (hfail : (c.step h op).1 = .error e)
    (htime : ∀ l polls, e ≠ .timeout l polls)
    (hop : ∀ context line plan, op ≠ .measureLatency context line plan) :
    (c.step h op).2 = c := by
  cases hcontext : op.context? with
  | some context => exact snd_step_of_context hcontext hfail
  | none =>
    cases op with
    | access a =>
      have htable := LineTable.snd_access_of_error (Error.map_eq_error_iff.mp hfail)
      exact congrArg (fun table => { c with table }) htable
    | awaitService context line maxPolls =>
      rcases step_awaitService_eq_error_iff.mp hfail with hmissing | ⟨-, he, -⟩
      · exact congrArg Prod.snd (awaitService_of_missing h maxPolls hmissing)
      · exact absurd he (htime line maxPolls)
    | measureLatency context line plan => exact absurd rfl (hop context line plan)
    | reset | load | store | storeBytes | sampleAll | isRequesting | size | serviceCount =>
      cases hfail
    | setThreshold | threshold | blocked | selectNext | pendingRequest | poll | drain =>
      cases hcontext

/-- **Failures are exact, and what is missing is found before anything is done.**

* An access to a line fails exactly if the line does not exist.
* What needs a context, draining with any budget included, fails exactly if the context does not
  exist.
* A wait and a measurement report a missing line before a missing context. Beyond that a wait fails
  only for want of time, when the line has not been serviced; a measurement does not fail, and one
  without a trial asks for nothing.
* With every check made again in every step the operations come to the same, so that none of them
  fails with something done.
* A failure, unless it is one for want of time, leaves the whole controller as it was.
* The exception is a measurement that finds something missing: it has raised its request before, and
  that is all it has done. If it is the line that is missing, this is nothing. -/
theorem failures_exact (h : Handler σ) (c : Controller σ) :
    (∀ a e, (c.step h (.access a)).1 = .error e ↔
      ∃ id, a.line? = some id ∧ c.table.size ≤ id ∧ e = .invalidLine id c.table.size) ∧
    (∀ op context, op.context? = some context → ∀ e, (c.step h op).1 = .error e ↔
      c.thresholds.size ≤ context ∧ e = .invalidContext context c.thresholds.size) ∧
    (∀ context line maxPolls e, (c.step h (.awaitService context line maxPolls)).1 = .error e ↔
      c.missing line context = some e ∨
        c.missing line context = none ∧ e = .timeout line maxPolls ∧
          (c.step h (.awaitService context line maxPolls)).2.record.count line ≤
            c.record.count line) ∧
    (∀ context line plan, plan.trials ≠ 0 → ∀ e,
      (c.step h (.measureLatency context line plan)).1 = .error e ↔
        c.missing line context = some e) ∧
    (∀ context line maxPolls, c.step h (.measureLatency context line ⟨0, maxPolls⟩) =
      (.ok (.report { line, maxPolls }), c)) ∧
    (∀ context line maxPolls, c.checkedPoll h context = c.poll h context ∧
      checkedDrain h context maxPolls [] c = c.drain h context maxPolls ∧
      c.checkedAwait h context line maxPolls = c.awaitService h context line maxPolls) ∧
    (∀ op e, (c.step h op).1 = .error e → (∀ l polls, e ≠ .timeout l polls) →
      (∀ context line plan, op ≠ .measureLatency context line plan) → (c.step h op).2 = c) ∧
    ∀ context line plan e, plan.trials ≠ 0 → c.missing line context = some e →
      c.step h (.measureLatency context line plan) =
          (.error e, (c.command (.setPending line)).2) ∧
        (c.table.size ≤ line → (c.command (.setPending line)).2 = c) := by
  refine ⟨?_, ?_, ?_, ?_, ?_, ?_, ?_, ?_⟩
  · intro a e
    exact Error.map_eq_error_iff.trans LineTable.fst_access_eq_error_iff
  · intro op context hop e
    exact step_eq_error_iff_of_context hop
  · intro context line maxPolls e
    exact step_awaitService_eq_error_iff
  · intro context line plan htrials e
    exact step_measureLatency_eq_error_iff htrials
  · intro context line maxPolls
    rfl
  · intro context line maxPolls
    exact ⟨checkedPoll_eq h c context, checkedDrain_eq h c context maxPolls,
      checkedAwait_eq h c context line maxPolls⟩
  · intro op e hfail htime hop
    exact snd_step_of_failure hfail htime hop
  · intro context line plan e htrials hmissing
    exact ⟨step_measureLatency_of_missing h htrials hmissing, command_of_le rfl⟩

/-- A measurement that is refused for its context leaves a request behind. -/
theorem refused_measurement_leaves_request :
    let h : Handler Unit := .passive
    let c := ofGeometry { lines := 1, contexts := 1 } ()
    let measured := c.step h (.measureLatency 1 0 ⟨1, 5⟩)
    measured.1 = .error (.invalidContext 1 1) ∧ measured.2 ≠ c ∧
      c.table.isPending 0 = false ∧ measured.2.table.isPending 0 = true := by
  intro h c measured
  have hafter : measured.2.table.isPending 0 = true := by decide
  refine ⟨rfl, fun hsame => ?_, by decide, hafter⟩
  rw [hsame] at hafter
  cases hafter

end Controller

end Irq
