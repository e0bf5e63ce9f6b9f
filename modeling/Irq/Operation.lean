import Irq.Controller.Waiting
import Irq.Registers.Block

/-!
# Irq.Operation

Everything that can be asked of a controller, as one type. A run is a list of operations, each of
which goes through `Controller.step`.
-/

namespace Irq

/-- An operation on a controller. -/
inductive Operation where
  /-- Accesses the line table. -/
  | access (a : Access)
  /-- Sets the threshold of a context. -/
  | setThreshold (context : Nat) (level : UInt8)
  /-- Asks for the threshold of a context. -/
  | threshold (context : Nat)
  /-- Asks whether a context blocks a priority. -/
  | blocked (priority : UInt8) (context : Nat)
  /-- Asks which line a context would service next. -/
  | selectNext (context : Nat)
  /-- Asks for the request presented to a context. -/
  | pendingRequest (context : Nat)
  /-- Runs one dispatch cycle. -/
  | poll (context : Nat)
  /-- Polls until nothing is eligible. -/
  | drain (context maxPolls : Nat)
  /-- Polls until a line has been serviced. -/
  | awaitService (context line maxPolls : Nat)
  /-- Measures the latency of a line. -/
  | measureLatency (context line : Nat) (plan : Sampling)
  /-- Clears lines, thresholds and record. -/
  | reset
  /-- Reads registers. -/
  | load (width : Bus.Width) (offset : Nat)
  /-- Writes registers. -/
  | store (width : Bus.Width) (offset value : Nat)
  /-- Writes any number of bytes of registers. -/
  | storeBytes (offset : Nat) (bytes : List UInt8)
  /-- Samples the raw inputs. -/
  | sampleAll (signals : List Bool)
  /-- Asks whether any context is presented a request. -/
  | isRequesting
  /-- Asks for the numbers of lines and contexts. -/
  | size
  /-- Asks how often a line was serviced. -/
  | serviceCount (line : Nat)
  deriving DecidableEq

/-- The answer to an operation. -/
inductive Response where
  /-- The operation was carried out. -/
  | done
  /-- An answer of the line table. -/
  | answer (a : Answer)
  | flag (value : Bool)
  | number (value : Nat)
  /-- A line that may be missing. -/
  | selected (line : Option Nat)
  /-- A delivery that may be missing. -/
  | delivery (d : Option Delivery)
  | drained (outcome : DrainOutcome)
  | report (r : LatencyReport)
  /-- The numbers of lines and contexts. -/
  | size (lines contexts : Nat)
  deriving DecidableEq

namespace Controller

variable {σ : Type}

/-- Carries out an operation. -/
def step (h : Handler σ) (c : Controller σ) : Operation → Except Error Response × Controller σ
  | .access a =>
    let (answer, table) := c.table.access a
    (answer.map .answer, { c with table })
  | .setThreshold context level =>
    let (result, c) := c.setThreshold context level
    (result.map fun _ => .done, c)
  | .threshold context => ((c.thresholds.get context).map fun level => .number level.toNat, c)
  | .blocked priority context => ((c.thresholds.blocked priority context).map .flag, c)
  | .selectNext context => ((c.selectNext context).map .selected, c)
  | .pendingRequest context => ((c.pendingRequest context).map .delivery, c)
  | .poll context =>
    let (result, c) := c.poll h context
    (result.map .delivery, c)
  | .drain context maxPolls =>
    let (result, c) := c.drain h context maxPolls
    (result.map .drained, c)
  | .awaitService context line maxPolls =>
    let (result, c) := c.awaitService h context line maxPolls
    (result.map .number, c)
  | .measureLatency context line plan =>
    let (result, c) := c.measureLatency h context line plan
    (result.map .report, c)
  | .reset => (.ok .done, c.reset)
  | .load width offset =>
    let (value, c) := Bus.load width offset c
    (.ok (.number value), c)
  | .store width offset value => (.ok .done, Bus.store width offset value c)
  | .storeBytes offset bytes => (.ok .done, Bus.storeBytes bytes offset c)
  | .sampleAll signals => (.ok .done, { c with table := c.table.sampleAll signals })
  | .isRequesting => (.ok (.flag c.isRequesting), c)
  | .size => (.ok (.size c.table.size c.thresholds.size), c)
  | .serviceCount line => (.ok (.number (c.record.count line)), c)

/-- Carries out a list of operations. -/
def run (h : Handler σ) (c : Controller σ) :
    List Operation → List (Except Error Response) × Controller σ
  | [] => ([], c)
  | op :: ops =>
    let (response, c) := c.step h op
    let (responses, c) := c.run h ops
    (response :: responses, c)

@[simp] theorem run_nil (h : Handler σ) (c : Controller σ) : c.run h [] = ([], c) := rfl

/-- A run carries out the first operation and then the others. -/
@[simp] theorem run_cons (h : Handler σ) (c : Controller σ) (op : Operation)
    (ops : List Operation) :
    c.run h (op :: ops) =
      ((c.step h op).1 :: ((c.step h op).2.run h ops).1, ((c.step h op).2.run h ops).2) := rfl

/-- A run can be made in two goes. -/
theorem run_append (h : Handler σ) (c : Controller σ) (first second : List Operation) :
    c.run h (first ++ second) =
      ((c.run h first).1 ++ ((c.run h first).2.run h second).1,
        ((c.run h first).2.run h second).2) := by
  induction first generalizing c with
  | nil => simp
  | cons op ops ih => simp [ih]

end Controller

end Irq
