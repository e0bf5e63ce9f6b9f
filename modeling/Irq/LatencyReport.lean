import Irq.ServiceRecord

/-!
# Irq.LatencyReport

The outcome of a repeated measurement on one line. A trial either completes, with the number of
polls it took, or runs out of its budget; the mean is over the completed trials alone.
-/

namespace Irq

/-- The outcome of a repeated measurement. -/
structure LatencyReport where
  /-- The measured line. -/
  line : Nat
  /-- The poll budget of each trial. -/
  maxPolls : Nat
  /-- The polls that each completed trial took, in order. -/
  samples : Array Nat := #[]
  /-- The number of trials that ran out of budget. -/
  timeouts : Nat := 0
  deriving DecidableEq

namespace LatencyReport

/-- Records a completed trial. -/
def addSample (r : LatencyReport) (polls : Nat) : LatencyReport :=
  { r with samples := r.samples.push polls }

/-- Records a trial that ran out of budget. -/
def addTimeout (r : LatencyReport) : LatencyReport := { r with timeouts := r.timeouts + 1 }

/-- The number of trials. -/
def trials (r : LatencyReport) : Nat := r.samples.size + r.timeouts

/-- The mean over the completed trials. -/
def average (r : LatencyReport) : Option Float := mean (r.samples.foldl (· + ·) 0) r.samples.size

/-- There is a mean exactly when some trial completed. -/
theorem average_eq_none_iff {r : LatencyReport} : r.average = none ↔ r.samples = #[] := by
  simp [average, mean]

/-- The compact object text of a report. -/
def object (r : LatencyReport) : String :=
  Text.object
    [("line", toString r.line), ("max_polls", toString r.maxPolls),
      ("samples", Text.array (r.samples.toList.map toString)),
      ("timeouts", toString r.timeouts)]

end LatencyReport

end Irq
