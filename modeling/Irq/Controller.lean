import Irq.Config
import Irq.Handler
import Irq.ServiceRecord

/-!
# Irq.Controller

The interrupt controller: its lines, the thresholds of its contexts, the record of its services and
the memory of the handler it delivers to. A dispatch cycle on a context advances the poll clock,
chooses the most urgent line that the threshold lets pass, applies the latch policy of that line,
lets the handler answer, and records the service.

An operation that can fail gives its result beside the controller it leaves behind, because what it
did before it failed stays done.
-/

namespace Irq

/-- An interrupt controller with a handler of memory `σ`. -/
structure Controller (σ : Type) where
  table : LineTable
  thresholds : Thresholds
  record : ServiceRecord
  memory : σ

namespace Controller

variable {σ : Type}

/-- A controller of the given shape, with every line disabled and idle. -/
def ofGeometry (g : Geometry) (memory : σ) : Controller σ where
  table := .ofSize g.lines g.priorityBits
  thresholds := .ofSize g.contexts
  record := .ofSize g.lines
  memory := memory

/-! ## Requests -/

/-- The line that a context would service next. -/
def selectNext (c : Controller σ) (context : Nat) : Except Error (Option Nat) :=
  (c.thresholds.get context).map fun threshold => (c.table.winner threshold).map Request.line

/-- The request presented to a context. -/
def pendingRequest (c : Controller σ) (context : Nat) : Except Error (Option Delivery) :=
  (c.thresholds.get context).map fun threshold =>
    (c.table.winner threshold).map (Request.on · context)

/-- Whether any context is presented a request. -/
def isRequesting (c : Controller σ) : Bool :=
  c.thresholds.levels.any fun threshold => (c.table.winner threshold).isSome

/-- What is presented to a context is what arbitration chooses under its threshold. -/
theorem pendingRequest_eq_some_iff {c : Controller σ} {context : Nat} {d : Delivery} :
    c.pendingRequest context = .ok (some d) ↔
      ∃ threshold r, c.thresholds.get context = .ok threshold ∧
        c.table.winner threshold = some r ∧ r.on context = d := by
  unfold pendingRequest
  cases c.thresholds.get context <;> simp [Except.map]

/-! ## Changes -/

/-- Carries out a command to the line table. -/
def command (c : Controller σ) (cmd : Command) : Except Error Unit × Controller σ :=
  ((c.table.run cmd).map fun _ => (), { c with table := c.table.apply cmd })

/-- Sets the threshold of a context. -/
def setThreshold (c : Controller σ) (context : Nat) (level : UInt8) :
    Except Error Unit × Controller σ :=
  match c.thresholds.set context level with
  | .ok thresholds => (.ok (), { c with thresholds })
  | .error e => (.error e, c)

/-- Clears lines, thresholds and record. Priorities and attributes survive, and the clock keeps
running. -/
def reset (c : Controller σ) : Controller σ :=
  { c with
    table := c.table.apply .reset
    thresholds := c.thresholds.reset
    record := c.record.reset }

/-! ## Dispatch -/

/-- Makes a delivery: the line's latch policy first, then the handler, then the record. A request
that the handler raises on the delivered line is therefore kept. -/
def serve (h : Handler σ) (c : Controller σ) (d : Delivery) : Controller σ :=
  let waited := c.table.waited d.line
  let (memory, table) := h.handle c.memory d (c.table.serve d.line)
  { c with table, memory, record := c.record.add d.line d.priority waited }

/-- Starts a new dispatch cycle. -/
def tick (c : Controller σ) : Controller σ := { c with table := c.table.tick }

/-- One dispatch cycle on a context with the given threshold. -/
def cycle (h : Handler σ) (context : Nat) (threshold : UInt8) (c : Controller σ) :
    Option Delivery × Controller σ :=
  match c.tick.table.winner threshold with
  | none => (none, c.tick)
  | some r => (some (r.on context), c.tick.serve h (r.on context))

/-- One dispatch cycle on a context. -/
def poll (h : Handler σ) (c : Controller σ) (context : Nat) :
    Except Error (Option Delivery) × Controller σ :=
  match c.thresholds.get context with
  | .error e => (.error e, c)
  | .ok threshold =>
    let (delivery, c) := cycle h context threshold c
    (.ok delivery, c)

/-! ## The two ways of a cycle -/

/-- A cycle in which no line wins only moves the clock. -/
theorem cycle_of_none (h : Handler σ) {c : Controller σ} (context : Nat) {threshold : UInt8}
    (hnone : c.table.winner threshold = none) : cycle h context threshold c = (none, c.tick) := by
  rw [cycle, tick, LineTable.winner_tick, hnone]

/-- A cycle in which a line wins delivers its request and services it, after the clock has moved. -/
theorem cycle_of_some (h : Handler σ) {c : Controller σ} (context : Nat) {threshold : UInt8}
    {r : Request} (hr : c.table.winner threshold = some r) :
    cycle h context threshold c = (some (r.on context), c.tick.serve h (r.on context)) := by
  rw [cycle, tick, LineTable.winner_tick, hr]

/-! ## What a cycle leaves alone -/

/-- No cycle changes a threshold, the handler's part included. -/
@[simp] theorem thresholds_cycle (h : Handler σ) (context : Nat) (threshold : UInt8)
    (c : Controller σ) : (cycle h context threshold c).2.thresholds = c.thresholds := by
  unfold cycle
  split <;> rfl

/-- A context keeps its threshold in a cycle. -/
theorem get_cycle (h : Handler σ) {c : Controller σ} {context : Nat} {threshold : UInt8}
    (hg : c.thresholds.get context = .ok threshold) :
    (cycle h context threshold c).2.thresholds.get context = .ok threshold := by
  rw [thresholds_cycle, hg]

@[simp] theorem now_serve (h : Handler σ) (c : Controller σ) (d : Delivery) :
    (c.serve h d).table.now = c.table.now :=
  Handler.now_handle h c.memory d (c.table.serve d.line)

@[simp] theorem size_table_serve (h : Handler σ) (c : Controller σ) (d : Delivery) :
    (c.serve h d).table.size = c.table.size :=
  (Handler.size_handle h c.memory d (c.table.serve d.line)).trans (LineTable.size_serve ..)

/-- A cycle advances the clock by one, whether it services a line or not. -/
@[simp] theorem now_cycle (h : Handler σ) (context : Nat) (threshold : UInt8)
    (c : Controller σ) : (cycle h context threshold c).2.table.now = c.table.now + 1 := by
  unfold cycle
  split <;> simp [tick, LineTable.tick]

/-- No cycle makes a line or takes one away. -/
@[simp] theorem size_table_cycle (h : Handler σ) (context : Nat) (threshold : UInt8)
    (c : Controller σ) : (cycle h context threshold c).2.table.size = c.table.size := by
  unfold cycle
  split <;> simp [tick]

/-- **A poll returns the request presented before it**, although it advances the clock first. -/
theorem fst_poll (h : Handler σ) (c : Controller σ) (context : Nat) :
    (c.poll h context).1 = c.pendingRequest context := by
  unfold poll pendingRequest
  split
  · next hg => simp [hg, Except.map]
  · next hg =>
    simp only [hg, Except.map, cycle, tick, LineTable.winner_tick, Except.ok.injEq]
    split <;> simp_all

/-! ## Texts -/

/-- The record text of a controller, which keeps the handler to itself. -/
def describe (c : Controller σ) : String :=
  Text.openRecord "Clic"
    [("registry", c.table.describe), ("gate", c.thresholds.describe),
      ("stats", c.record.describe)]

end Controller

end Irq
