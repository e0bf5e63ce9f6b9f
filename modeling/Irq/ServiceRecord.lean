import Irq.Text.Object
import Irq.Text.Record

/-!
# Irq.ServiceRecord

What has been serviced: how often each line, which line last, and how long the services had to wait.
Waits are counted in dispatch cycles. Only a service changes the record.
-/

namespace Irq

/-- The mean of `count` numbers with the given sum, in double precision. Sum and count are 64-bit
words, each rounded to a double before they are divided. -/
def mean (sum count : Nat) : Option Float :=
  if count = 0 then none else some (sum.toUInt64.toFloat / count.toUInt64.toFloat)

/-- A running summary of waits. -/
structure WaitSummary where
  /-- How many waits were recorded. -/
  samples : Nat := 0
  /-- Their sum. -/
  total : Nat := 0
  /-- The shortest. -/
  shortest : Option Nat := none
  /-- The longest. -/
  longest : Option Nat := none
  deriving DecidableEq

namespace WaitSummary

/-- Records one wait. -/
def add (s : WaitSummary) (wait : Nat) : WaitSummary where
  samples := s.samples + 1
  total := s.total + wait
  shortest := some (s.shortest.elim wait (min · wait))
  longest := some (s.longest.elim wait (max · wait))

/-- The mean wait. -/
def average (s : WaitSummary) : Option Float := mean s.total s.samples

/-- The texts of the fields, a missing value written by `missing`. -/
def fields (missing : Option String → String) (s : WaitSummary) : List (String × String) :=
  [("samples", toString s.samples), ("total_polls", toString s.total),
    ("min_polls", missing (s.shortest.map toString)),
    ("max_polls", missing (s.longest.map toString))]

/-- The compact object text of a summary. -/
def object (s : WaitSummary) : String := Text.object (s.fields Text.nullable)

/-- The record text of a summary. -/
def describe (s : WaitSummary) : String := Text.record "LatencySummary" (s.fields Text.optional)

end WaitSummary

/-- The record of services. -/
structure ServiceRecord where
  /-- How often each line was serviced. -/
  counts : Array Nat
  /-- The line serviced last. -/
  lastLine : Option Nat := none
  /-- The priority it was serviced at. -/
  lastPriority : Option UInt8 := none
  /-- The number of services of all lines. -/
  total : Nat := 0
  /-- The waits of the services. -/
  waits : WaitSummary := {}
  deriving DecidableEq

namespace ServiceRecord

/-- The empty record of `count` lines. -/
def ofSize (count : Nat) : ServiceRecord := { counts := Array.replicate count 0 }

/-- Records a service. The wait is missing if the line had no stamp; a line beyond the record is
counted in the total only. -/
def add (r : ServiceRecord) (line : Nat) (priority : UInt8) (wait : Option Nat) :
    ServiceRecord where
  counts := r.counts.modify line (· + 1)
  lastLine := some line
  lastPriority := some priority
  total := r.total + 1
  waits := wait.elim r.waits r.waits.add

/-- How often a line was serviced; 0 for a line beyond the record. -/
def count (r : ServiceRecord) (line : Nat) : Nat := r.counts[line]?.getD 0

/-- The empty record of as many lines. -/
def reset (r : ServiceRecord) : ServiceRecord := ofSize r.counts.size

/-- Whether nothing has been recorded. -/
def isNew (r : ServiceRecord) : Bool := r == ofSize r.counts.size

/-- A service entered leaves the number of counts. -/
@[simp] theorem size_counts_add (r : ServiceRecord) (line : Nat) (priority : UInt8)
    (wait : Option Nat) : (r.add line priority wait).counts.size = r.counts.size := by
  simp [add]

@[simp] theorem size_counts_ofSize (n : Nat) : (ofSize n).counts.size = n := Array.size_replicate

@[simp] theorem size_counts_reset (r : ServiceRecord) : r.reset.counts.size = r.counts.size := by
  simp [reset, ofSize]

/-- A service raises the count of its line, if the record has that line, and no other count. -/
theorem count_add (r : ServiceRecord) (line : Nat) (priority : UInt8) (wait : Option Nat)
    (i : Nat) :
    (r.add line priority wait).count i =
      if line = i ∧ i < r.counts.size then r.count i + 1 else r.count i := by
  simp only [count, add, Array.getElem?_modify]
  by_cases hi : i < r.counts.size
  · by_cases hl : line = i <;> simp [hi, hl]
  · simp [hi]

/-- A new record counts no service. -/
@[simp] theorem count_ofSize (n i : Nat) : (ofSize n).count i = 0 := by
  simp only [count, ofSize, Array.getElem?_replicate]
  split <;> rfl

/-- The texts of the fields, lists and missing values written as given. -/
def fields (list : List String → String) (missing : Option String → String)
    (waits : WaitSummary → String) (r : ServiceRecord) : List (String × String) :=
  [("service_count", list (r.counts.toList.map toString)),
    ("last_serviced_id", missing (r.lastLine.map toString)),
    ("last_serviced_priority", missing (r.lastPriority.map fun p => toString p.toNat)),
    ("total_services", toString r.total), ("latency", waits r.waits)]

/-- The compact object text of a record. -/
def object (r : ServiceRecord) : String :=
  Text.object (r.fields Text.array Text.nullable WaitSummary.object)

/-- The record text of a record. -/
def describe (r : ServiceRecord) : String :=
  Text.record "DispatchStats" (r.fields Text.list Text.optional WaitSummary.describe)

end ServiceRecord

end Irq
