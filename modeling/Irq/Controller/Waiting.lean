import Irq.Controller
import Irq.LatencyReport

/-!
# Irq.Controller.Waiting

Operations that poll more than once. They are all one loop, `cyclesUntil`, which runs dispatch
cycles until a condition holds or a budget is used up; so none of them waits forever, and what every
cycle keeps all of them keep (`cyclesUntil_invariant`).
-/

namespace Irq

/-- What draining a context came to. -/
structure DrainOutcome where
  /-- The deliveries, in the order of service. -/
  serviced : List Delivery
  /-- Whether nothing was eligible when draining stopped. -/
  quiescent : Bool
  deriving DecidableEq

namespace Controller

variable {σ : Type}

/-! ## Repeated cycles -/

/-- Runs dispatch cycles until `stop` holds after one of them or the budget is used up. Gives the
outcomes of all the cycles run, behind those of earlier cycles, which are kept last first. -/
def cyclesUntil (h : Handler σ) (context : Nat) (threshold : UInt8)
    (stop : Option Delivery → Controller σ → Bool) :
    Nat → List (Option Delivery) → Controller σ → List (Option Delivery) × Controller σ
  | 0, earlier, c => (earlier.reverse, c)
  | budget + 1, earlier, c =>
    match cycle h context threshold c with
    | (outcome, c) =>
      if stop outcome c then ((outcome :: earlier).reverse, c)
      else cyclesUntil h context threshold stop budget (outcome :: earlier) c

/-- Polls a context until nothing is eligible or `maxPolls` cycles have run. -/
def drain (h : Handler σ) (c : Controller σ) (context maxPolls : Nat) :
    Except Error DrainOutcome × Controller σ :=
  match c.thresholds.get context with
  | .error e => (.error e, c)
  | .ok threshold =>
    let (outcomes, c) :=
      cyclesUntil h context threshold (fun outcome _ => outcome.isNone) maxPolls [] c
    (.ok ⟨outcomes.filterMap id, (c.table.winner threshold).isNone⟩, c)

/-- Polls a context until a line completes one more service; gives the number of polls taken. The
service shows in the record of the line, whose bad number is reported before a bad context. -/
def awaitService (h : Handler σ) (c : Controller σ) (context line maxPolls : Nat) :
    Except Error Nat × Controller σ :=
  match c.table.line line, c.thresholds.get context with
  | .error e, _ => (.error e, c)
  | .ok _, .error e => (.error e, c)
  | .ok _, .ok threshold =>
    let before := c.record.count line
    let (outcomes, c) :=
      cyclesUntil h context threshold (fun _ c => before < c.record.count line) maxPolls [] c
    if before < c.record.count line then (.ok outcomes.length, c)
    else (.error (.timeout line maxPolls), c)

/-! ## Measuring latency -/

/-- Runs trials: each raises a request on the line of the report and waits for its service. A trial
that runs out of budget is counted, and its request stays pending. -/
def runTrials (h : Handler σ) (context : Nat) :
    Nat → LatencyReport → Controller σ → Except Error LatencyReport × Controller σ
  | 0, report, c => (.ok report, c)
  | trials + 1, report, c =>
    match c.command (.setPending report.line) with
    | (.error e, c) => (.error e, c)
    | (.ok _, c) =>
      match c.awaitService h context report.line report.maxPolls with
      | (.ok polls, c) => runTrials h context trials (report.addSample polls) c
      | (.error (.timeout _ _), c) => runTrials h context trials report.addTimeout c
      | (.error e, c) => (.error e, c)

/-- Measures how many polls the services of a line take on a context. Without a trial nothing is
checked and nothing happens. -/
def measureLatency (h : Handler σ) (c : Controller σ) (context line : Nat) (plan : Sampling) :
    Except Error LatencyReport × Controller σ :=
  runTrials h context plan.trials { line, maxPolls := plan.maxPolls } c

/-! ## What repeated cycles keep -/

/-- A budget that is not used up is good for a cycle, and then for the rest unless that was enough.
-/
theorem cyclesUntil_succ (h : Handler σ) (context : Nat) (threshold : UInt8)
    (stop : Option Delivery → Controller σ → Bool) (budget : Nat)
    (earlier : List (Option Delivery)) (c : Controller σ) :
    cyclesUntil h context threshold stop (budget + 1) earlier c =
      let (outcome, c') := cycle h context threshold c
      if stop outcome c' then ((outcome :: earlier).reverse, c')
      else cyclesUntil h context threshold stop budget (outcome :: earlier) c' := rfl

/-- The outcomes of earlier cycles only stand in front of those of the cycles run. -/
theorem cyclesUntil_earlier (h : Handler σ) (context : Nat) (threshold : UInt8)
    (stop : Option Delivery → Controller σ → Bool) (budget : Nat)
    (earlier : List (Option Delivery)) (c : Controller σ) :
    cyclesUntil h context threshold stop budget earlier c =
      (earlier.reverse ++ (cyclesUntil h context threshold stop budget [] c).1,
        (cyclesUntil h context threshold stop budget [] c).2) := by
  induction budget generalizing earlier c with
  | zero => simp [cyclesUntil]
  | succ budget ih =>
    simp only [cyclesUntil_succ]
    split
    · simp
    · rw [ih (_ :: earlier), ih [_]]
      simp

/-- **What every cycle keeps, repeated cycles keep.** -/
theorem cyclesUntil_invariant (h : Handler σ) (context : Nat) (threshold : UInt8)
    (stop : Option Delivery → Controller σ → Bool) (invariant : Controller σ → Prop)
    (keeps : ∀ c, invariant c → invariant (cycle h context threshold c).2)
    (budget : Nat) (earlier : List (Option Delivery)) (c : Controller σ) (start : invariant c) :
    invariant (cyclesUntil h context threshold stop budget earlier c).2 := by
  induction budget generalizing earlier c with
  | zero => exact start
  | succ budget ih =>
    simp only [cyclesUntil_succ]
    split
    · exact keeps c start
    · exact ih _ _ (keeps c start)

/-- The clock tells how many cycles were run. -/
theorem now_cyclesUntil (h : Handler σ) (context : Nat) (threshold : UInt8)
    (stop : Option Delivery → Controller σ → Bool) (budget : Nat) (c : Controller σ) :
    (cyclesUntil h context threshold stop budget [] c).2.table.now =
      c.table.now + (cyclesUntil h context threshold stop budget [] c).1.length := by
  induction budget generalizing c with
  | zero => simp [cyclesUntil]
  | succ budget ih =>
    simp only [cyclesUntil_succ]
    split
    · simp
    · rw [cyclesUntil_earlier]
      simp only [ih, now_cycle, List.length_append, List.length_reverse, List.length_singleton]
      omega

end Controller

end Irq
