import Irq.Proofs.CallLog
import Mathlib.Data.List.DropRight

/-!
# Irq.Proofs.Services

The record of a controller is what its services since the last reset have written. A service is a
moment with a delivery, and what it writes is the delivery and the wait of the line at that moment;
`record_run` says that the record after a run is these, entered one after another, and nothing else.
-/

namespace Irq

/-- The operations of a run up to its last reset, with it. -/
def upToReset (ops : List Operation) : List Operation := ops.rdropWhile (· != .reset)

/-- The operations of a run since its last reset, or all of them if it has none. -/
def sinceReset (ops : List Operation) : List Operation := ops.rtakeWhile (· != .reset)

/-- A run is what comes up to the last reset and what comes since. -/
theorem upToReset_append_sinceReset (ops : List Operation) :
    upToReset ops ++ sinceReset ops = ops :=
  List.rdropWhile_append_rtakeWhile

/-- Since the last reset there is none. -/
theorem ne_reset_of_mem_sinceReset {ops : List Operation} {op : Operation}
    (hop : op ∈ sinceReset ops) : op ≠ .reset := by
  simpa using List.mem_rtakeWhile_imp hop

/-- What has been done up to the last reset is nothing, or ends with it. -/
theorem upToReset_cases (ops : List Operation) :
    upToReset ops = [] ∨ ∃ before, upToReset ops = before ++ [.reset] := by
  by_cases hnil : upToReset ops = []
  · exact .inl hnil
  · have hlast : (upToReset ops).getLast hnil = .reset := by
      have hnot : ((upToReset ops).getLast hnil != Operation.reset) ≠ true :=
        List.rdropWhile_last_not (· != Operation.reset) ops hnil
      simpa using hnot
    refine .inr ⟨(upToReset ops).dropLast, ?_⟩
    rw [← hlast, List.dropLast_append_getLast]

/-! ## Only a reset clears the record -/

namespace Controller

variable {σ : Type}

/-- No cycle clears the record. -/
theorem cleared_not_mem_cycleEvents (h : Handler σ) (context : Nat) (threshold : UInt8)
    (c : Controller σ) : .cleared ∉ cycleEvents h context threshold c := by
  unfold cycleEvents
  split <;> simp

theorem cleared_not_mem_cyclesEvents (h : Handler σ) (context : Nat) (threshold : UInt8)
    (stop : Option Delivery → Controller σ → Bool) (budget : Nat) (c : Controller σ) :
    .cleared ∉ cyclesEvents h context threshold stop budget c := by
  induction budget generalizing c with
  | zero => simp [cyclesEvents]
  | succ budget ih =>
    simp only [cyclesEvents, List.mem_append, not_or]
    refine ⟨cleared_not_mem_cycleEvents h context threshold c, ?_⟩
    split
    · simp
    · exact ih _

theorem cleared_not_mem_awaitEvents (h : Handler σ) (c : Controller σ)
    (context line maxPolls : Nat) : .cleared ∉ awaitEvents h c context line maxPolls := by
  unfold awaitEvents
  split
  · exact cleared_not_mem_cyclesEvents h context _ _ maxPolls c
  · simp

theorem cleared_not_mem_trialsEvents (h : Handler σ) (context line maxPolls trials : Nat)
    (c : Controller σ) : .cleared ∉ trialsEvents h context line maxPolls trials c := by
  induction trials generalizing c with
  | zero => simp [trialsEvents]
  | succ trials ih =>
    simp only [trialsEvents, List.mem_cons, reduceCtorEq, false_or]
    split
    · simp
    · rw [List.mem_append, not_or]
      refine ⟨cleared_not_mem_awaitEvents h _ context line maxPolls, ?_⟩
      split
      · exact ih _
      · exact ih _
      · simp

theorem cleared_not_mem_bytesEvents (bytes : List UInt8) (offset : Nat) (c : Controller σ) :
    .cleared ∉ bytesEvents bytes offset c := by
  induction bytes generalizing offset c with
  | nil => simp [bytesEvents]
  | cons b bs ih =>
    rw [bytesEvents, List.mem_append, not_or]
    refine ⟨?_, ih _ _⟩
    unfold byteEvents
    cases c.register? offset with
    | none => simp
    | some r => cases r <;> simp [registerEvent]

/-- No operation but a reset clears the record. -/
theorem cleared_not_mem_events (h : Handler σ) (c : Controller σ) {op : Operation}
    (hop : op ≠ .reset) : .cleared ∉ c.events h op := by
  cases op with
  | reset => exact absurd rfl hop
  | poll context =>
    simp only [events]
    split
    · simp
    · exact cleared_not_mem_cycleEvents h context _ c
  | drain context maxPolls =>
    simp only [events]
    split
    · simp
    · exact cleared_not_mem_cyclesEvents h context _ _ maxPolls c
  | awaitService context line maxPolls => exact cleared_not_mem_awaitEvents h c _ _ _
  | measureLatency context line plan => exact cleared_not_mem_trialsEvents h _ _ _ _ c
  | store width offset value => exact cleared_not_mem_bytesEvents _ offset c
  | storeBytes offset bytes => exact cleared_not_mem_bytesEvents bytes offset c
  | access _ | setThreshold _ _ | sampleAll _ | threshold _ | blocked _ _ | selectNext _
  | pendingRequest _ | load _ _ | isRequesting | size | serviceCount _ => simp [events]

/-- A run without reset does not clear the record. -/
theorem cleared_not_mem_history (h : Handler σ) (c : Controller σ) {ops : List Operation}
    (hops : ∀ op ∈ ops, op ≠ .reset) : .cleared ∉ c.history h ops := by
  induction ops generalizing c with
  | nil => simp [history]
  | cons op ops ih =>
    rw [history, List.mem_append, not_or]
    exact ⟨cleared_not_mem_events h c (hops op List.mem_cons_self),
      ih _ fun op hop => hops op (List.mem_cons_of_mem _ hop)⟩

end Controller

/-! ## The record as a fold -/

/-- The service at a moment, if there is one: the delivery, and the wait recorded with it. -/
def Moment.service? (m : Moment) : Option (Delivery × Option Nat) :=
  m.event.delivery?.map fun d => (d, m.before.waited d.line)

/-- Enters a service into a record. -/
def ServiceRecord.enter (r : ServiceRecord) (service : Delivery × Option Nat) : ServiceRecord :=
  r.add service.1.line service.1.priority service.2

namespace Controller

variable {σ : Type}

/-- Events that do not clear the record enter their services into it, one after the other. -/
theorem record_replay (c : Controller Unit) {es : List Event} (hes : .cleared ∉ es) :
    (c.replay es).record =
      ((c.table.moments es).filterMap Moment.service?).foldl ServiceRecord.enter c.record := by
  induction es generalizing c with
  | nil => rfl
  | cons e es ih =>
    rw [List.mem_cons, not_or] at hes
    rw [replay_cons, ih _ hes.2, table_happen, LineTable.moments, List.filterMap_cons]
    cases e with
    | command | tick | delivery => rfl
    | threshold context level =>
      simp only [happen, setThreshold, Moment.service?, Event.delivery?, Option.map_none]
      split <;> rfl
    | cleared => exact absurd rfl hes.1

/-- The services of a run, in their order. -/
def services (h : Handler σ) (c : Controller σ) (ops : List Operation) :
    List (Delivery × Option Nat) :=
  (c.moments h ops).filterMap Moment.service?

/-- **The record of a run without reset** is that of its services, entered one after the other. -/
theorem record_run_of_no_reset (h : Handler σ) (c : Controller σ) {ops : List Operation}
    (hops : ∀ op ∈ ops, op ≠ .reset) :
    (c.run h ops).2.record = (c.services h ops).foldl ServiceRecord.enter c.record := by
  have hforget := congrArg Controller.record (forget_run h c ops)
  rw [record_replay c.forget (cleared_not_mem_history h c hops)] at hforget
  exact hforget

/-- A reset, and a controller that is new, have an empty record. -/
theorem record_upToReset (g : Geometry) (memory : σ) (h : Handler σ) (ops : List Operation) :
    ((ofGeometry g memory).run h (upToReset ops)).2.record = .ofSize g.lines := by
  rcases upToReset_cases ops with hnil | ⟨before, hbefore⟩
  · rw [hnil]
    rfl
  · rw [hbefore, run_append]
    exact congrArg ServiceRecord.ofSize (size_counts_run g memory h before)

/-- **The record is what the services since the last reset have written.** -/
theorem record_run (g : Geometry) (memory : σ) (h : Handler σ) (ops : List Operation) :
    ((ofGeometry g memory).run h ops).2.record =
      (((ofGeometry g memory).run h (upToReset ops)).2.services h (sinceReset ops)).foldl
        ServiceRecord.enter (.ofSize g.lines) := by
  have hops : ∀ op ∈ sinceReset ops, op ≠ .reset := fun _ hop => ne_reset_of_mem_sinceReset hop
  have hrun := record_run_of_no_reset h ((ofGeometry g memory).run h (upToReset ops)).2 hops
  have hall := run_append h (ofGeometry g memory) (upToReset ops) (sinceReset ops)
  rw [upToReset_append_sinceReset] at hall
  rw [record_upToReset] at hrun
  rw [hall, hrun]

end Controller

end Irq
