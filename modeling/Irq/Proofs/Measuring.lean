import Irq.Proofs.Polling
import Mathlib.Data.List.ReduceOption

/-!
# Irq.Proofs.Measuring

The books of a measurement. A measurement is a row of trials, each of which raises a request on the
measured line and waits for its service, and its report tells what became of them
(`runTrials_eq_trials`). Whatever the handler does to the line, a completed trial ends with a
service of the line and has no other, and one that ran out of budget has none; so the report
accounts for every service of the line and for every poll of the measurement (`Accounts`). What one
trial keeps of the outcomes before it and of the controller, a measurement keeps
(`trials_invariant`).
-/

namespace Irq

/-! ## Reports of outcomes -/

/-- Records the outcome of a trial: the polls that it took, or that it ran out of budget. -/
def LatencyReport.enter (r : LatencyReport) : Option Nat → LatencyReport
  | some polls => r.addSample polls
  | none => r.addTimeout

/-- How many polls trials take together, when one that runs out of budget takes all of it. -/
def spent (maxPolls : Nat) (outcomes : List (Option Nat)) : Nat :=
  (outcomes.map (·.getD maxPolls)).sum

/-- A report holds the completed trials in their order, and counts the others. -/
theorem LatencyReport.foldl_enter (r : LatencyReport) (outcomes : List (Option Nat)) :
    outcomes.foldl enter r =
      { r with
        samples := r.samples ++ outcomes.reduceOption.toArray
        timeouts := r.timeouts + outcomes.countP Option.isNone } := by
  induction outcomes generalizing r with
  | nil => simp
  | cons outcome outcomes ih =>
    rw [List.foldl_cons, ih]
    cases outcome with
    | none => simp [enter, addTimeout, Nat.add_assoc, Nat.add_comm 1]
    | some polls => simp [enter, addSample]

theorem spent_append (maxPolls : Nat) (first second : List (Option Nat)) :
    spent maxPolls (first ++ second) = spent maxPolls first + spent maxPolls second := by
  simp [spent]

/-- The polls spent are those of the completed trials, and the whole budget of each other. -/
theorem spent_eq (maxPolls : Nat) (outcomes : List (Option Nat)) :
    spent maxPolls outcomes =
      outcomes.reduceOption.sum + outcomes.countP Option.isNone * maxPolls := by
  induction outcomes with
  | nil => simp [spent]
  | cons outcome outcomes ih =>
    have hhead := spent_append maxPolls [outcome] outcomes
    rw [List.singleton_append] at hhead
    rw [hhead, ih]
    cases outcome with
    | none =>
      simp only [spent, List.map_cons, List.map_nil, Option.getD_none, List.sum_singleton,
        List.reduceOption_cons_of_none, List.countP_cons, Option.isNone_none, if_true, Nat.add_mul]
      omega
    | some polls => simp [spent, Nat.add_assoc]

/-- Every trial completes or runs out of budget. -/
theorem length_reduceOption_add_countP (outcomes : List (Option Nat)) :
    outcomes.reduceOption.length + outcomes.countP Option.isNone = outcomes.length := by
  induction outcomes with
  | nil => rfl
  | cons outcome outcomes ih =>
    cases outcome <;> simp <;> omega

namespace Controller

variable {σ : Type}

/-! ## Trials -/

/-- One trial: raises a request on a line and waits for its service. Gives the number of polls that
the wait took, or nothing if it ran out of budget. -/
def trial (h : Handler σ) (context line maxPolls : Nat) (c : Controller σ) :
    Option Nat × Controller σ :=
  let (result, c) := (c.command (.setPending line)).2.awaitService h context line maxPolls
  (result.toOption, c)

/-- Trials one after another, with their outcomes. -/
def trials (h : Handler σ) (context line maxPolls : Nat) :
    Nat → Controller σ → List (Option Nat) × Controller σ
  | 0, c => ([], c)
  | n + 1, c =>
    let (outcome, c) := trial h context line maxPolls c
    let (outcomes, c) := trials h context line maxPolls n c
    (outcome :: outcomes, c)

/-- The events of one trial. -/
def trialEvents (h : Handler σ) (context line maxPolls : Nat) (c : Controller σ) : List Event :=
  .command (.setPending line) ::
    awaitEvents h (c.command (.setPending line)).2 context line maxPolls

section
variable {h : Handler σ} {c : Controller σ} {context line : Nat} {threshold : UInt8}

/-- **How a trial ends**: with a service of its line after some of its polls, or without one after
all of them. -/
theorem trial_cases (hp : Present context line threshold c) (h : Handler σ) (maxPolls : Nat) :
    let raised := (c.command (.setPending line)).2
    ∃ n ≤ maxPolls, (trial h context line maxPolls c).2 = raised.afterPolls h context n ∧
      (((trial h context line maxPolls c).1 = some n ∧ 1 ≤ n ∧
          (raised.afterPolls h context n).record.count line = c.record.count line + 1) ∨
        ((trial h context line maxPolls c).1 = none ∧ n = maxPolls ∧
          (raised.afterPolls h context n).record.count line = c.record.count line)) := by
  intro raised
  have hraised : Present context line threshold raised := hp.command _
  unfold trial
  rcases awaitService_cases hraised h maxPolls with ⟨k, hk, hwait, hcount⟩ | ⟨hwait, hcount⟩
  · rw [hwait]
    exact ⟨k + 1, hk, rfl, .inl ⟨rfl, Nat.le_add_left 1 k, hcount⟩⟩
  · rw [hwait]
    exact ⟨maxPolls, Nat.le_refl _, rfl, .inr ⟨rfl, rfl, hcount⟩⟩

/-- A trial takes away neither line nor context. -/
theorem Present.trial (hp : Present context line threshold c) (h : Handler σ) (maxPolls : Nat) :
    Present context line threshold (trial h context line maxPolls c).2 := by
  obtain ⟨n, -, hnext, -⟩ := trial_cases hp h maxPolls
  rw [hnext]
  exact (hp.command _).afterPolls h n

/-- **A measurement is a row of trials**, and its report tells their outcomes. -/
theorem runTrials_eq_trials (report : LatencyReport)
    (hp : Present context report.line threshold c) (h : Handler σ) (n : Nat) :
    runTrials h context n report c =
      (.ok ((trials h context report.line report.maxPolls n c).1.foldl LatencyReport.enter report),
        (trials h context report.line report.maxPolls n c).2) := by
  induction n generalizing report c with
  | zero => rfl
  | succ n ih =>
    have hcommand : (c.command (.setPending report.line)).1 = .ok () := by
      rw [fst_command c rfl, if_pos hp.lt_size]
    have hraised := hp.command (.setPending report.line)
    simp only [runTrials, trials, Controller.trial]
    generalize c.command (.setPending report.line) = x at *
    obtain ⟨result, raised⟩ := x
    cases hcommand
    dsimp only at hraised ⊢
    rcases awaitService_cases hraised h report.maxPolls with ⟨k, -, hwait, -⟩ | ⟨hwait, -⟩
    · rw [hwait]
      exact ih (report.addSample (k + 1)) (hraised.afterPolls h _)
    · rw [hwait]
      exact ih report.addTimeout (hraised.afterPolls h _)

/-- The events of a measurement are those of its first trial and those of the others. -/
theorem trialsEvents_succ (hp : Present context line threshold c) (h : Handler σ)
    (maxPolls n : Nat) :
    trialsEvents h context line maxPolls (n + 1) c =
      trialEvents h context line maxPolls c ++
        trialsEvents h context line maxPolls n (trial h context line maxPolls c).2 := by
  have hcommand : (c.command (.setPending line)).1 = .ok () := by
    rw [fst_command c rfl, if_pos hp.lt_size]
  have hraised := hp.command (.setPending line)
  simp only [trialsEvents, trialEvents, Controller.trial, List.cons_append]
  generalize c.command (.setPending line) = x at *
  obtain ⟨result, raised⟩ := x
  cases hcommand
  dsimp only at hraised ⊢
  rcases awaitService_cases hraised h maxPolls with ⟨k, -, hwait, -⟩ | ⟨hwait, -⟩ <;> rw [hwait]

/-- **What one trial keeps**, of the outcomes and events before it and of the controller, **any
number of them keeps.** -/
theorem trials_invariant {maxPolls : Nat}
    (keep : List (Option Nat) → List Event → Controller σ → Prop)
    (keeps : ∀ {outcomes es c}, Present context line threshold c → keep outcomes es c →
      keep (outcomes ++ [(trial h context line maxPolls c).1])
        (es ++ trialEvents h context line maxPolls c) (trial h context line maxPolls c).2)
    (hp : Present context line threshold c) (outcomes : List (Option Nat)) (es : List Event)
    (start : keep outcomes es c) (n : Nat) :
    keep (outcomes ++ (trials h context line maxPolls n c).1)
      (es ++ trialsEvents h context line maxPolls n c) (trials h context line maxPolls n c).2 := by
  induction n generalizing c outcomes es with
  | zero =>
    rw [trials, trialsEvents, List.append_nil, List.append_nil]
    exact start
  | succ n ih =>
    have hrest := ih (hp.trial h maxPolls) _ _ (keeps hp start)
    rw [List.append_assoc, List.append_assoc, ← trialsEvents_succ hp] at hrest
    exact hrest

theorem length_trials (h : Handler σ) (context line maxPolls n : Nat) (c : Controller σ) :
    (trials h context line maxPolls n c).1.length = n := by
  induction n generalizing c with
  | zero => rfl
  | succ n ih => simp [trials, ih]

/-! ## Clock and record -/

/-- A cycle records a service if it makes a delivery. -/
theorem total_cycle (h : Handler σ) (context : Nat) (threshold : UInt8) (c : Controller σ) :
    (cycle h context threshold c).2.record.total =
      c.record.total + (cycle h context threshold c).1.isSome.toNat := by
  unfold cycle
  split <;> rfl

/-- What polls do to clock and record: the clock counts them all, not more services than polls are
recorded, and those of a line are among these. -/
structure Elapsed (line polls : Nat) (before after : Controller σ) : Prop where
  now : after.table.now = before.table.now + polls
  total_le : after.record.total ≤ before.record.total + polls
  share : after.record.count line + before.record.total ≤
    before.record.count line + after.record.total

namespace Elapsed

variable {polls more : Nat} {before after later : Controller σ}

theorem refl (line : Nat) (c : Controller σ) : Elapsed line 0 c c :=
  ⟨rfl, Nat.le_refl _, Nat.le_refl _⟩

/-- What passes in two goes adds up. -/
theorem trans (first : Elapsed line polls before after) (second : Elapsed line more after later) :
    Elapsed line (polls + more) before later := by
  obtain ⟨hnow, htotal, hshare⟩ := first
  obtain ⟨hnow', htotal', hshare'⟩ := second
  constructor <;> omega

/-- A cycle is one poll. -/
theorem cycle (hp : Present context line threshold c) (h : Handler σ) :
    Elapsed line 1 c (cycle h context threshold c).2 := by
  have hcount := count_cycle h context threshold hp.lt_counts
  have htotal := total_cycle h context threshold c
  refine ⟨now_cycle h context threshold c, ?_, ?_⟩
  · have hone := Bool.toNat_le (Controller.cycle h context threshold c).1.isSome
    omega
  · rw [hcount, htotal]
    cases (Controller.cycle h context threshold c).1 with
    | none => exact Nat.le_refl _
    | some d =>
      have hone := Bool.toNat_le (d.line == line)
      simp only [Option.any_some, Option.isSome_some, Bool.toNat_true]
      omega

/-- Polls are as many polls. -/
theorem afterPolls (hp : Present context line threshold c) (h : Handler σ) (n : Nat) :
    Elapsed line n c (c.afterPolls h context n) := by
  induction n generalizing c with
  | zero => exact refl line c
  | succ n ih =>
    rw [afterPolls_succ hp.get, Nat.add_comm]
    exact (cycle hp h).trans (ih (hp.cycle h))

end Elapsed

/-- What the outcomes of trials account for between two controllers: every service of the line, and
every poll. -/
structure Accounts (line maxPolls : Nat) (start : Controller σ) (outcomes : List (Option Nat))
    (c : Controller σ) : Prop where
  polls : ∀ n, some n ∈ outcomes → 1 ≤ n ∧ n ≤ maxPolls
  count : c.record.count line = start.record.count line + outcomes.reduceOption.length
  elapsed : Elapsed line (spent maxPolls outcomes) start c

namespace Accounts

variable {start : Controller σ} {outcomes : List (Option Nat)} {maxPolls : Nat}

theorem nil (line maxPolls : Nat) (c : Controller σ) : Accounts line maxPolls c [] c :=
  ⟨by simp, by simp, Elapsed.refl line c⟩

/-- **One trial more.** The request that is raised first changes neither clock nor record. -/
theorem trial (ha : Accounts line maxPolls start outcomes c)
    (hp : Present context line threshold c) (h : Handler σ) :
    Accounts line maxPolls start (outcomes ++ [(trial h context line maxPolls c).1])
      (trial h context line maxPolls c).2 := by
  obtain ⟨n, hle, hnext, hend⟩ := trial_cases hp h maxPolls
  have hwait : Elapsed line n c (Controller.trial h context line maxPolls c).2 := by
    obtain ⟨hnow, htotal, hshare⟩ := Elapsed.afterPolls (hp.command (.setPending line)) h n
    rw [hnext]
    exact ⟨hnow.trans (congrArg (· + n) (LineTable.now_apply _ _)), htotal, hshare⟩
  have helapsed := ha.elapsed.trans hwait
  rw [hnext] at helapsed ⊢
  rcases hend with ⟨houtcome, hone, hcount⟩ | ⟨houtcome, rfl, hcount⟩
  · rw [houtcome]
    refine ⟨fun k hk => ?_, ?_, ?_⟩
    · rcases List.mem_append.mp hk with hk | hk
      · exact ha.polls k hk
      · obtain rfl : k = n := by simpa using hk
        exact ⟨hone, hle⟩
    · rw [hcount, ha.count]
      simp [List.reduceOption_append, Nat.add_assoc]
    · rw [spent_append]
      exact helapsed
  · rw [houtcome]
    refine ⟨fun k hk => ?_, ?_, ?_⟩
    · rcases List.mem_append.mp hk with hk | hk
      · exact ha.polls k hk
      · simp at hk
    · rw [hcount, ha.count]
      simp [List.reduceOption_append]
    · rw [spent_append]
      exact helapsed

/-- **Any number of trials.** -/
theorem trials (hp : Present context line threshold c) (h : Handler σ) (maxPolls n : Nat) :
    Accounts line maxPolls c (trials h context line maxPolls n c).1
      (trials h context line maxPolls n c).2 :=
  trials_invariant (fun outcomes _ d => Accounts line maxPolls c outcomes d)
    (fun hp' ha => ha.trial hp' h) hp [] [] (nil line maxPolls c) n

end Accounts

end

/-- **The books of a measurement balance**, whatever its handler does. Let a controller be reached
in any way, and let a line be measured on a context. The measurement reports the line and its budget.
Each trial has either completed, in at least one poll and within the budget, or run out of it. The
count of the line has grown by the completed trials, and the clock by their polls and by the budgets
that ran out. Other lines may have been serviced meanwhile, but not more lines than the clock has
gone on. The report has a mean unless no trial completed. -/
theorem measurement_accounts (g : Geometry) (memory : σ) (h : Handler σ) (ops : List Operation)
    {context line : Nat} (hcontext : context < g.contexts) (hline : line < g.lines)
    (plan : Sampling) :
    let c := ((ofGeometry g memory).run h ops).2
    let after := (c.measureLatency h context line plan).2
    ∃ report, (c.measureLatency h context line plan).1 = .ok report ∧
      report.line = line ∧ report.maxPolls = plan.maxPolls ∧
      report.samples.size + report.timeouts = plan.trials ∧
      (∀ polls ∈ report.samples, 1 ≤ polls ∧ polls ≤ plan.maxPolls) ∧
      after.record.count line = c.record.count line + report.samples.size ∧
      after.table.now = c.table.now + (report.samples.sum + report.timeouts * plan.maxPolls) ∧
      c.record.total + report.samples.size ≤ after.record.total ∧
      after.record.total ≤ c.record.total + (after.table.now - c.table.now) ∧
      (report.average = none ↔ report.samples = #[]) := by
  intro c after
  obtain ⟨threshold, hp⟩ : ∃ threshold, Present context line threshold c :=
    exists_present_run g memory h ops hcontext hline
  have hrun := runTrials_eq_trials { line, maxPolls := plan.maxPolls } hp h plan.trials
  have haccounts := Accounts.trials hp h plan.maxPolls plan.trials
  have hafter : after = (trials h context line plan.maxPolls plan.trials c).2 :=
    congrArg Prod.snd hrun
  have htrials := length_trials h context line plan.maxPolls plan.trials c
  rw [← hafter] at haccounts
  obtain ⟨hpolls, hcount, hnow, htotal, hshare⟩ := haccounts
  rw [spent_eq] at hnow htotal
  refine ⟨_, congrArg Prod.fst hrun, ?_⟩
  dsimp only
  generalize (trials h context line plan.maxPolls plan.trials c).1 = outcomes at *
  rw [LatencyReport.foldl_enter]
  have hsize : (#[] ++ outcomes.reduceOption.toArray).size = outcomes.reduceOption.length := by simp
  have hsum : (#[] ++ outcomes.reduceOption.toArray).sum = outcomes.reduceOption.sum := by simp
  have htimeouts : 0 + outcomes.countP Option.isNone = outcomes.countP Option.isNone :=
    Nat.zero_add _
  dsimp only
  rw [hsize, hsum, htimeouts]
  refine ⟨rfl, rfl, ?_, ?_, hcount, hnow, ?_, ?_, LatencyReport.average_eq_none_iff⟩
  · rw [length_reduceOption_add_countP, htrials]
  · intro polls hmem
    exact hpolls polls (List.reduceOption_mem_iff.mp (by simpa using hmem))
  · omega
  · omega

/-- The handler lets the measured line be serviced once, puts another one before it and then
disables it: one trial completes and two run out of their budget of two polls. -/
theorem measurement_accounts_of_disabled :
    let h : Handler Nat := ⟨fun n _ _ => (n + 1, if n = 0 then [.setPending 1] else [.disable 0])⟩
    let g : Geometry := { lines := 2 }
    let raised (line : Nat) (priority : UInt8) : List Operation :=
      [.access (.command (.configure line priority ⟨.edge, .positive⟩)),
        .access (.command (.enable line))]
    let c := ((ofGeometry g 0).run h (raised 0 2 ++ raised 1 1)).2
    let after := (c.measureLatency h 0 0 ⟨3, 2⟩).2
    0 < g.contexts ∧ 0 < g.lines ∧
      ∃ report, (c.measureLatency h 0 0 ⟨3, 2⟩).1 = .ok report ∧ report = ⟨0, 2, #[1], 2⟩ ∧
        after.record.count 0 = c.record.count 0 + report.samples.size ∧
        after.table.now = c.table.now + (report.samples.sum + report.timeouts * 2) := by
  intro h g raised c
  have hcontext : 0 < g.contexts := by decide
  have hline : 0 < g.lines := by decide
  have hrun : (c.measureLatency h 0 0 ⟨3, 2⟩).1 = .ok ⟨0, 2, #[1], 2⟩ := by decide +kernel
  obtain ⟨report, hreport, -, -, -, -, hcount, hnow, -⟩ :=
    measurement_accounts g 0 h (raised 0 2 ++ raised 1 1) hcontext hline ⟨3, 2⟩
  have hc : ((ofGeometry g 0).run h (raised 0 2 ++ raised 1 1)).2 = c := rfl
  rw [hc] at hreport hcount hnow
  exact ⟨hcontext, hline, report, hreport, Except.ok.inj (hreport.symm.trans hrun), hcount, hnow⟩

end Controller

end Irq
