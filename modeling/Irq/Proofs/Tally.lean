import Irq.Proofs.Intact
import Irq.Proofs.Services
import Mathlib.Algebra.GroupWithZero.Nat

/-!
# Irq.Proofs.Tally

What the record tells of the calls of the handler. A record tells of a list of deliveries if its
counts, its total, its samples and its last service are those of the list (`Tells`). A service that
is entered keeps this up, and the record of every run is made of such services. The answers of the
run return the same deliveries, apart from those made while a client waits for a service.
-/

namespace Irq

/-- The record is that of these deliveries, in this order. -/
structure ServiceRecord.Tells (r : ServiceRecord) (ds : List Delivery) : Prop where
  count : ∀ line, r.count line = ds.countP (·.line == line)
  total : r.total = ds.length
  samples : r.waits.samples = ds.length
  sum : r.counts.sum = r.total
  lastLine : r.lastLine = ds.getLast?.map Delivery.line
  lastPriority : r.lastPriority = ds.getLast?.map Delivery.priority

/-- Whether an operation dispatches interrupts. -/
def Operation.dispatches : Operation → Bool
  | poll _ | drain _ _ | awaitService _ _ _ | measureLatency _ _ _ => true
  | access _ | setThreshold _ _ | threshold _ | blocked _ _ | selectNext _ | pendingRequest _
  | reset | load _ _ | store _ _ _ | storeBytes _ _ | sampleAll _ | isRequesting | size
  | serviceCount _ => false

/-- Whether an operation waits for the service of a line. -/
def Operation.awaits : Operation → Bool
  | awaitService _ _ _ | measureLatency _ _ _ => true
  | poll _ | drain _ _ | access _ | setThreshold _ _ | threshold _ | blocked _ _ | selectNext _
  | pendingRequest _ | reset | load _ _ | store _ _ _ | storeBytes _ _ | sampleAll _
  | isRequesting | size | serviceCount _ => false

/-- The deliveries that the answer to an operation returns. -/
def Operation.returned : Operation → Except Error Response → List Delivery
  | poll _, .ok (.delivery d) => d.toList
  | drain _ _, .ok (.drained outcome) => outcome.serviced
  | _, _ => []

/-! ## A service is told of -/

namespace ServiceRecord

/-- A count that goes up by one adds one to the sum. -/
theorem sum_modify_succ {counts : List Nat} {line : Nat} (hline : line < counts.length) :
    (counts.modify line (· + 1)).sum = counts.sum + 1 := by
  induction counts generalizing line with
  | nil => exact absurd hline (Nat.not_lt_zero line)
  | cons count counts ih =>
    cases line with
    | zero =>
      rw [List.modify_zero_cons, List.sum_cons, List.sum_cons]
      omega
    | succ line =>
      have hrest := ih (Nat.lt_of_succ_lt_succ hline)
      rw [List.modify_succ_cons, List.sum_cons, List.sum_cons, hrest]
      omega

/-- A service entered adds one to the sum of the counts. -/
theorem sum_counts_add {r : ServiceRecord} {line : Nat} (hline : line < r.counts.size)
    (priority : UInt8) (wait : Option Nat) :
    (r.add line priority wait).counts.sum = r.counts.sum + 1 := by
  rw [add, ← Array.sum_toList, Array.toList_modify, ← Array.sum_toList]
  exact sum_modify_succ hline

namespace Tells

theorem ofSize (lines : Nat) : (ServiceRecord.ofSize lines).Tells [] := by
  refine ⟨fun line => count_ofSize lines line, rfl, rfl, ?_, rfl, rfl⟩
  rw [ServiceRecord.ofSize, ← Array.sum_toList, Array.toList_replicate, List.sum_replicate_nat]
  exact Nat.mul_zero lines

/-- A record with a service entered tells of one delivery more. -/
theorem enter {r : ServiceRecord} {ds : List Delivery} {service : Delivery × Option Nat}
    (hr : r.Tells ds) (hline : service.1.line < r.counts.size) (hwait : service.2.isSome = true) :
    (r.enter service).Tells (ds ++ [service.1]) := by
  obtain ⟨d, wait⟩ := service
  obtain ⟨w, rfl⟩ := Option.isSome_iff_exists.mp hwait
  constructor
  case count =>
    intro line
    rw [ServiceRecord.enter, count_add, List.countP_append, hr.count]
    by_cases hd : d.line = line
    · have hlt : line < r.counts.size := hd ▸ hline
      simp [hd, hlt]
    · simp [hd]
  case total =>
    rw [List.length_append, ← hr.total]
    rfl
  case samples =>
    rw [List.length_append, ← hr.samples]
    rfl
  case sum =>
    rw [ServiceRecord.enter, sum_counts_add hline, hr.sum]
    rfl
  case lastLine =>
    rw [List.getLast?_concat]
    rfl
  case lastPriority =>
    rw [List.getLast?_concat]
    rfl

/-- A record with services entered tells of their deliveries as well. -/
theorem foldl_enter {r : ServiceRecord} {ds : List Delivery}
    {services : List (Delivery × Option Nat)} (hr : r.Tells ds)
    (hservices : ∀ s ∈ services, s.1.line < r.counts.size ∧ s.2.isSome = true) :
    (services.foldl ServiceRecord.enter r).Tells (ds ++ services.map Prod.fst) := by
  induction services generalizing r ds with
  | nil =>
    rw [List.map_nil, List.append_nil]
    exact hr
  | cons s services ih =>
    obtain ⟨hline, hwait⟩ := hservices s List.mem_cons_self
    have hsize : (r.enter s).counts.size = r.counts.size := size_counts_add _ _ _ _
    have hrest := ih (hr.enter hline hwait) fun s' hs' => by
      rw [hsize]
      exact hservices s' (List.mem_cons_of_mem _ hs')
    rw [List.append_assoc] at hrest
    exact hrest

end Tells

end ServiceRecord

/-- The services of a history are its deliveries. -/
theorem LineTable.map_fst_services (t : LineTable) (es : List Event) :
    ((t.moments es).filterMap Moment.service?).map Prod.fst = delivered es := by
  induction es generalizing t with
  | nil => rfl
  | cons e es ih =>
    rw [moments, List.filterMap_cons, ← List.singleton_append (l := es), delivered_append, ← ih]
    cases e <;> rfl

namespace Controller

variable {σ : Type}

/-- The services of a run are those of its deliveries. -/
theorem map_fst_services (h : Handler σ) (c : Controller σ) (ops : List Operation) :
    (c.services h ops).map Prod.fst = c.deliveries h ops := by
  rw [deliveries_eq]
  exact LineTable.map_fst_services _ _

/-- What is entered into a record: a line that it counts, and a wait. -/
theorem service_complete (g : Geometry) (memory : σ) (h : Handler σ) (ops : List Operation)
    {m : Moment} (hm : m ∈ (ofGeometry g memory).moments h ops) {s : Delivery × Option Nat}
    (hs : m.service? = some s) : s.1.line < g.lines ∧ s.2.isSome = true := by
  obtain ⟨t, e⟩ := m
  cases e with
  | delivery d =>
    cases hs
    refine ⟨line_lt_of_delivery g memory h ops hm rfl, ?_⟩
    obtain ⟨_, _, wait, -, -, hwait, -⟩ := stamped_of_delivery g memory h ops hm rfl
    exact Option.isSome_of_eq_some hwait
  | command | threshold | tick | cleared => simp [Moment.service?, Event.delivery?] at hs

/-- **The record tells of the calls since the last reset.** -/
theorem tells_deliveries (g : Geometry) (memory : σ) (h : Handler σ) (ops : List Operation) :
    ((ofGeometry g memory).run h ops).2.record.Tells
      (((ofGeometry g memory).run h (upToReset ops)).2.deliveries h (sinceReset ops)) := by
  rw [record_run, ← map_fst_services, ← List.nil_append (List.map _ _)]
  refine (ServiceRecord.Tells.ofSize g.lines).foldl_enter fun s hs => ?_
  obtain ⟨m, hm, hservice⟩ := List.mem_filterMap.mp hs
  have hrun : m ∈ (ofGeometry g memory).moments h ops := by
    rw [← upToReset_append_sinceReset ops, moments_append]
    exact List.mem_append_right _ hm
  rw [ServiceRecord.size_counts_ofSize]
  exact service_complete g memory h ops hrun hservice

/-! ## Which operation makes a delivery -/

/-- The deliveries of a run, each with the operation that it is made by. -/
def madeBy (h : Handler σ) (c : Controller σ) : List Operation → List (Operation × Delivery)
  | [] => []
  | op :: ops => (c.deliveries h [op]).map (op, ·) ++ madeBy h (c.step h op).2 ops

theorem deliveries_append (h : Handler σ) (c : Controller σ) (first second : List Operation) :
    c.deliveries h (first ++ second) =
      c.deliveries h first ++ (c.run h first).2.deliveries h second := by
  rw [deliveries, calls_append, List.map_append]
  rfl

theorem deliveries_singleton (h : Handler σ) (c : Controller σ) (op : Operation) :
    c.deliveries h [op] = delivered (c.events h op) := by
  rw [deliveries_eq, history, history, List.append_nil]

theorem map_snd_madeBy (h : Handler σ) (c : Controller σ) (ops : List Operation) :
    (c.madeBy h ops).map Prod.snd = c.deliveries h ops := by
  induction ops generalizing c with
  | nil => rfl
  | cons op ops ih =>
    have hsplit := deliveries_append h c [op] ops
    rw [List.singleton_append] at hsplit
    rw [hsplit, madeBy, List.map_append, ih, List.map_map]
    have hmade : (c.deliveries h [op]).map (Prod.snd ∘ (op, ·)) = c.deliveries h [op] :=
      List.map_id _
    rw [hmade]
    rfl

/-- The events of a cycle have its delivery, if there is one. -/
theorem delivered_cycleEvents (h : Handler σ) (context : Nat) (threshold : UInt8)
    (c : Controller σ) :
    delivered (cycleEvents h context threshold c) = (cycle h context threshold c).1.toList := by
  unfold cycleEvents cycle
  cases c.tick.table.winner threshold with
  | none => rfl
  | some r =>
    show [r.on context] ++ delivered (List.map .command _) = _
    rw [delivered_commands]
    rfl

/-- The events of repeated cycles have their deliveries. The induction speaks of no earlier
outcomes, so that of the first cycle is taken out of them. -/
theorem delivered_cyclesEvents (h : Handler σ) (context : Nat) (threshold : UInt8)
    (stop : Option Delivery → Controller σ → Bool) (budget : Nat) (c : Controller σ) :
    delivered (cyclesEvents h context threshold stop budget c) =
      (cyclesUntil h context threshold stop budget [] c).1.filterMap id := by
  induction budget generalizing c with
  | zero => rfl
  | succ budget ih =>
    simp only [cyclesEvents, cyclesUntil_succ, delivered_append, delivered_cycleEvents]
    split
    · cases (cycle h context threshold c).1 <;> rfl
    · rw [ih, cyclesUntil_earlier h context threshold stop budget [_]]
      cases (cycle h context threshold c).1 <;> rfl

theorem delivered_bytesEvents (bytes : List UInt8) (offset : Nat) (c : Controller σ) :
    delivered (bytesEvents bytes offset c) = [] := by
  induction bytes generalizing offset c with
  | nil => rfl
  | cons b bs ih =>
    rw [bytesEvents, delivered_append, ih, List.append_nil]
    unfold byteEvents
    cases c.register? offset with
    | none => rfl
    | some r => cases r <;> rfl

/-- Nothing is delivered but by operations that dispatch. -/
theorem delivered_events_of_not_dispatches (h : Handler σ) (c : Controller σ) {op : Operation}
    (hop : op.dispatches = false) : delivered (c.events h op) = [] := by
  cases op with
  | poll _ | drain _ _ | awaitService _ _ _ | measureLatency _ _ _ => cases hop
  | access a => exact delivered_commands _
  | store width offset value => exact delivered_bytesEvents _ offset c
  | storeBytes offset bytes => exact delivered_bytesEvents bytes offset c
  | sampleAll signals => rw [events_sampleAll, delivered_commands]
  | setThreshold _ _ | reset | threshold _ | blocked _ _ | selectNext _ | pendingRequest _
  | load _ _ | isRequesting | size | serviceCount _ => rfl

/-- An answer returns what has been delivered, unless the operation waits for a service. -/
theorem returned_step (h : Handler σ) (c : Controller σ) (op : Operation) :
    op.returned (c.step h op).1 = if op.awaits then [] else delivered (c.events h op) := by
  cases op with
  | poll context =>
    simp only [step, events, poll]
    cases c.thresholds.get context with
    | error e => rfl
    | ok threshold => exact (delivered_cycleEvents h context threshold c).symm
  | drain context maxPolls =>
    simp only [step, events, drain]
    cases c.thresholds.get context with
    | error e => rfl
    | ok threshold => exact (delivered_cyclesEvents h context threshold _ maxPolls c).symm
  | awaitService _ _ _ | measureLatency _ _ _ => rfl
  | access _ | setThreshold _ _ | reset | store _ _ _ | storeBytes _ _ | sampleAll _ | threshold _
  | blocked _ _ | selectNext _ | pendingRequest _ | load _ _ | isRequesting | size
  | serviceCount _ => exact (delivered_events_of_not_dispatches h c rfl).symm

/-- **The answers of a run return its deliveries**, less those made by operations that wait for a
service. -/
theorem returned_run (h : Handler σ) (c : Controller σ) (ops : List Operation) :
    ((ops.zip (c.run h ops).1).flatMap fun (op, answer) => op.returned answer) =
      ((c.madeBy h ops).filter fun (op, _) => !op.awaits).map Prod.snd := by
  induction ops generalizing c with
  | nil => rfl
  | cons op ops ih =>
    rw [run_cons, List.zip_cons_cons, List.flatMap_cons, ih, madeBy, List.filter_append,
      List.map_append]
    dsimp only
    rw [returned_step, deliveries_singleton]
    cases hop : op.awaits <;> simp [List.filter_map, Function.comp_def, hop]

/-- Nothing is recorded, and nothing forgotten, but by a dispatch or a reset. -/
theorem record_step (h : Handler σ) (c : Controller σ) {op : Operation}
    (hdispatch : op.dispatches = false) (hreset : op ≠ .reset) :
    (c.step h op).2.record = c.record := by
  have hservices : c.services h [op] = [] := by
    have hmap := map_fst_services h c [op]
    rw [deliveries_singleton, delivered_events_of_not_dispatches h c hdispatch] at hmap
    exact List.map_eq_nil_iff.mp hmap
  have hrecord := @record_run_of_no_reset σ h c [op] (by simpa using hreset)
  rw [hservices] at hrecord
  exact hrecord

/-- **The record is a fold of the calls of the handler.** After every run it tells of the
deliveries that the handler has been called with since the last reset, and lines that the controller
does not have are not among them. The answers return these deliveries, less exactly those made while
waiting for a service. No other operation, on whatever controller, changes the record, except the
reset that clears it. -/
theorem record_tells_calls (g : Geometry) (memory : σ) (h : Handler σ) (ops : List Operation) :
    let start := ofGeometry g memory
    let restart := (start.run h (upToReset ops)).2
    let recent := sinceReset ops
    let called := restart.deliveries h recent
    let record := (start.run h ops).2.record
    record.Tells called ∧
      (∀ line, g.lines ≤ line → record.count line = 0) ∧
      (record.lastLine = none ↔ called = []) ∧ (record.lastPriority = none ↔ called = []) ∧
      (restart.madeBy h recent).map Prod.snd = called ∧
      ((recent.zip (restart.run h recent).1).flatMap fun (op, answer) => op.returned answer) =
        ((restart.madeBy h recent).filter fun (op, _) => !op.awaits).map Prod.snd ∧
      ∀ (c : Controller σ) (op : Operation), op.dispatches = false → op ≠ .reset →
        (c.step h op).2.record = c.record := by
  intro start restart recent called record
  have htells : record.Tells called := tells_deliveries g memory h ops
  refine ⟨htells, ?_, ?_, ?_, map_snd_madeBy h restart recent, returned_run h restart recent,
    fun c op hdispatch hreset => record_step h c hdispatch hreset⟩
  · intro line hline
    have hsize : record.counts.size = g.lines := size_counts_run g memory h ops
    rw [ServiceRecord.count, Array.getElem?_eq_none (hsize ▸ hline)]
    rfl
  · rw [htells.lastLine, Option.map_eq_none_iff, List.getLast?_eq_none_iff]
  · rw [htells.lastPriority, Option.map_eq_none_iff, List.getLast?_eq_none_iff]

end Controller

end Irq
