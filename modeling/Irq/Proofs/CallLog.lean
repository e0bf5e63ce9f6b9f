import Irq.Proofs.Moments
import Irq.Proofs.Simulation

/-!
# Irq.Proofs.CallLog

The calls that a handler receives. `Handler.logged` makes of any handler one that keeps a log of its
calls, each with the table that it is given and the table that it leaves behind, and that otherwise
does what the first one does: a run answers the same and ends in the same controller with either
(`run_mapMemory`), and has the same history (`history_mapMemory`). The log that a run leaves behind
is therefore a record of the run that was not taken from its history; `deliveries_eq` and
`of_mem_calls` say how the two fit together.
-/

namespace Irq

variable {σ τ : Type}

/-- One call of a handler. -/
structure Call where
  delivery : Delivery
  /-- The table that the handler is given. -/
  given : LineTable
  /-- The table that it leaves behind. -/
  left : LineTable

/-- Whether a call is found among events that happen to a table: the events have its delivery, and
behind it the commands that the handler gave. -/
def Call.Within (t : LineTable) (es : List Event) (call : Call) : Prop :=
  ∃ first cmds rest, es = first ++ .delivery call.delivery :: (cmds.map .command ++ rest) ∧
    call.given = t.replay (first ++ [.delivery call.delivery]) ∧
    call.left = call.given.applyAll cmds

namespace Handler

/-- The handler that answers as another one does and keeps a log of its calls. -/
def logged (h : Handler σ) : Handler (σ × List Call) where
  deliver memory d t :=
    let (inner, commands) := h.deliver memory.1 d t
    ((inner, memory.2 ++ [⟨d, t, t.applyAll commands⟩]), commands)

/-- Whether a second handler does what a first one does, with an image of its memory. -/
def Through (f : σ → τ) (h : Handler σ) (h' : Handler τ) : Prop :=
  ∀ memory d t, h'.deliver (f memory) d t = (f (h.deliver memory d t).1, (h.deliver memory d t).2)

/-- A handler seen through a map of its memory leaves the same table. -/
theorem handle_through {f : σ → τ} {h : Handler σ} {h' : Handler τ} (hf : Through f h h')
    (memory : σ) (d : Delivery) (t : LineTable) :
    h'.handle (f memory) d t = (f (h.handle memory d t).1, (h.handle memory d t).2) := by
  unfold handle
  rw [hf]

/-- A handler whose calls are logged is the handler itself, the log left aside. -/
theorem through_fst (h : Handler σ) : Through Prod.fst h.logged h := fun _ _ _ => rfl

/-- What a log has held before makes no difference to what is added to it. -/
theorem through_log (h : Handler σ) (earlier : List Call) :
    Through (fun memory => (memory.1, earlier ++ memory.2)) h.logged h.logged := by
  intro memory d t
  simp [logged]

end Handler

namespace Controller

variable {f : σ → τ} {h : Handler σ} {h' : Handler τ}

/-- The controller with an image of the handler's memory. -/
def mapMemory (f : σ → τ) (c : Controller σ) : Controller τ := { c with memory := f c.memory }

/-- A service is the same, seen through the map. -/
theorem serve_mapMemory (hf : Handler.Through f h h') (c : Controller σ) (d : Delivery) :
    (c.mapMemory f).serve h' d = (c.serve h d).mapMemory f := by
  have hhandle := Handler.handle_through hf c.memory d (c.table.serve d.line)
  simp only [serve, mapMemory]
  rw [hhandle]

/-- A cycle has the same outcome, seen through the map. -/
theorem cycle_mapMemory (hf : Handler.Through f h h') (context : Nat) (threshold : UInt8)
    (c : Controller σ) :
    cycle h' context threshold (c.mapMemory f) =
      ((cycle h context threshold c).1, (cycle h context threshold c).2.mapMemory f) := by
  have htick : (c.mapMemory f).tick.table = c.tick.table := rfl
  unfold cycle
  rw [htick]
  cases c.tick.table.winner threshold with
  | none => rfl
  | some r =>
    have hserve := serve_mapMemory hf c.tick (r.on context)
    exact Prod.ext rfl hserve

/-- **With the image of its memory a controller does the same**: waiting cannot tell them apart. -/
theorem simulation_mapMemory (hf : Handler.Through f h h') :
    Simulation h h' fun c d => c.mapMemory f = d where
  thresholds := by rintro c _ rfl; rfl
  size := by rintro c _ rfl; rfl
  count := by rintro c _ rfl line; rfl
  raise := by rintro c _ rfl line; rfl
  cycle := by
    rintro c _ rfl context threshold
    rw [cycle_mapMemory hf]
    exact ⟨rfl, rfl⟩

/-! ## The same answers -/

/-- What is read does not depend on the memory of the handler. -/
theorem loadBytes_mapMemory (f : σ → τ) (n offset : Nat) (c : Controller σ) :
    (Bus.loadBytes n offset (c.mapMemory f)).1 = (Bus.loadBytes n offset c).1 := by
  induction n generalizing offset with
  | zero => rfl
  | succ n ih =>
    simp only [Bus.loadBytes, load_eq, ih]
    rfl

/-- A write does not touch the memory of the handler. -/
theorem writeByte_mapMemory (f : σ → τ) (c : Controller σ) (offset : Nat) (value : UInt8) :
    (c.mapMemory f).writeByte offset value = (c.writeByte offset value).mapMemory f := by
  have hreg : (c.mapMemory f).register? offset = c.register? offset := rfl
  unfold writeByte
  rw [hreg]
  cases c.register? offset with
  | none => rfl
  | some r =>
    cases r with
    | line bank id => rfl
    | threshold context =>
      simp only [Option.elim_some, writeRegister, setThreshold, mapMemory]
      split <;> rfl

/-- A write of several bytes does not touch the memory of the handler. -/
theorem storeBytes_mapMemory (f : σ → τ) (bytes : List UInt8) (offset : Nat) (c : Controller σ) :
    Bus.storeBytes bytes offset (c.mapMemory f) = (Bus.storeBytes bytes offset c).mapMemory f := by
  induction bytes generalizing offset c with
  | nil => rfl
  | cons b bs ih => rw [Bus.storeBytes, Bus.storeBytes, store_eq, writeByte_mapMemory, ih, store_eq]

/-- Every operation is answered the same, seen through the map. -/
theorem step_mapMemory (hf : Handler.Through f h h') (c : Controller σ) (op : Operation) :
    (c.mapMemory f).step h' op = ((c.step h op).1, (c.step h op).2.mapMemory f) := by
  have S := simulation_mapMemory hf
  cases op with
  | access a => cases a <;> rfl
  | setThreshold context level =>
    simp only [step, setThreshold, mapMemory]
    split <;> rfl
  | poll context =>
    obtain ⟨hres, hnext⟩ := S.poll (d := c.mapMemory f) context rfl
    simp only [step]
    rw [← hres, ← hnext]
  | drain context maxPolls =>
    obtain ⟨hres, hnext⟩ := S.drain (d := c.mapMemory f) context maxPolls rfl
    simp only [step]
    rw [← hres, ← hnext]
  | awaitService context line maxPolls =>
    obtain ⟨hres, hnext⟩ := S.awaitService (d := c.mapMemory f) context line maxPolls rfl
    simp only [step]
    rw [← hres, ← hnext]
  | measureLatency context line plan =>
    obtain ⟨hres, hnext⟩ := S.measureLatency (d := c.mapMemory f) context line plan rfl
    simp only [step]
    rw [← hres, ← hnext]
  | load width offset =>
    simp only [step, Bus.load, loadBytes_mapMemory, snd_loadBytes]
  | store width offset value => simp only [step, Bus.store, storeBytes_mapMemory]
  | storeBytes offset bytes => simp only [step, storeBytes_mapMemory]
  | reset | threshold _ | blocked _ _ | selectNext _ | pendingRequest _ | sampleAll _
  | isRequesting | size | serviceCount _ => rfl

/-- **With the image of its memory a run answers the same**, and it ends with the image. -/
theorem run_mapMemory (hf : Handler.Through f h h') (c : Controller σ) (ops : List Operation) :
    (c.mapMemory f).run h' ops = ((c.run h ops).1, (c.run h ops).2.mapMemory f) := by
  induction ops generalizing c with
  | nil => rfl
  | cons op ops ih => simp only [run_cons, step_mapMemory hf, ih]

/-! ## The same history -/

/-- A cycle makes the same events, seen through the map. -/
theorem cycleEvents_mapMemory (hf : Handler.Through f h h') (context : Nat) (threshold : UInt8)
    (c : Controller σ) :
    cycleEvents h' context threshold (c.mapMemory f) = cycleEvents h context threshold c := by
  have htick : (c.mapMemory f).tick.table = c.tick.table := rfl
  have hmemory : (c.mapMemory f).memory = f c.memory := rfl
  unfold cycleEvents
  rw [htick, hmemory]
  cases c.tick.table.winner threshold with
  | none => rfl
  | some r => simp only [hf c.memory (r.on context) (c.tick.table.serve r.line)]

theorem cyclesEvents_mapMemory (hf : Handler.Through f h h') (context : Nat) (threshold : UInt8)
    (stop : Option Delivery → Controller σ → Bool) (stop' : Option Delivery → Controller τ → Bool)
    (hstop : ∀ outcome c, stop' outcome (c.mapMemory f) = stop outcome c) (budget : Nat)
    (c : Controller σ) :
    cyclesEvents h' context threshold stop' budget (c.mapMemory f) =
      cyclesEvents h context threshold stop budget c := by
  induction budget generalizing c with
  | zero => rfl
  | succ budget ih =>
    simp only [cyclesEvents, cycle_mapMemory hf, cycleEvents_mapMemory hf, hstop, ih]

theorem awaitEvents_mapMemory (hf : Handler.Through f h h') (c : Controller σ)
    (context line maxPolls : Nat) :
    awaitEvents h' (c.mapMemory f) context line maxPolls =
      awaitEvents h c context line maxPolls := by
  have htable : (c.mapMemory f).table = c.table := rfl
  have hthresholds : (c.mapMemory f).thresholds = c.thresholds := rfl
  have hrecord : (c.mapMemory f).record = c.record := rfl
  unfold awaitEvents
  rw [htable, hthresholds, hrecord]
  cases c.table.line line with
  | error e => rfl
  | ok l =>
    cases c.thresholds.get context with
    | error e => rfl
    | ok threshold =>
      exact cyclesEvents_mapMemory hf context threshold _ _ (fun _ _ => rfl) maxPolls c

theorem trialsEvents_mapMemory (hf : Handler.Through f h h') (context line maxPolls trials : Nat)
    (c : Controller σ) :
    trialsEvents h' context line maxPolls trials (c.mapMemory f) =
      trialsEvents h context line maxPolls trials c := by
  induction trials generalizing c with
  | zero => rfl
  | succ trials ih =>
    have hcommand : (c.mapMemory f).command (.setPending line) =
        ((c.command (.setPending line)).1, (c.command (.setPending line)).2.mapMemory f) := rfl
    simp only [trialsEvents, hcommand]
    obtain ⟨result, c'⟩ := c.command (.setPending line)
    cases result with
    | error e => rfl
    | ok _ =>
      obtain ⟨hans, hwait⟩ :=
        (simulation_mapMemory hf).awaitService (d := c'.mapMemory f) context line maxPolls rfl
      dsimp only
      rw [awaitEvents_mapMemory hf]
      generalize (c'.mapMemory f).awaitService h' context line maxPolls = y at *
      generalize c'.awaitService h context line maxPolls = x at *
      obtain ⟨answer, c''⟩ := x
      obtain ⟨answer', d''⟩ := y
      change answer = answer' at hans
      change c''.mapMemory f = d'' at hwait
      subst hans hwait
      cases answer with
      | ok polls => simp only [ih]
      | error e => cases e <;> simp only [ih]

theorem bytesEvents_mapMemory (f : σ → τ) (bytes : List UInt8) (offset : Nat)
    (c : Controller σ) :
    bytesEvents bytes offset (c.mapMemory f) = bytesEvents bytes offset c := by
  induction bytes generalizing offset c with
  | nil => rfl
  | cons b bs ih =>
    simp only [bytesEvents, writeByte_mapMemory, ih]
    rfl

/-- Every operation makes the same events, seen through the map. -/
theorem events_mapMemory (hf : Handler.Through f h h') (c : Controller σ) (op : Operation) :
    (c.mapMemory f).events h' op = c.events h op := by
  have hthresholds : (c.mapMemory f).thresholds = c.thresholds := rfl
  cases op with
  | poll context => simp only [events, hthresholds, cycleEvents_mapMemory hf]
  | drain context maxPolls =>
    simp only [events, hthresholds]
    cases c.thresholds.get context with
    | error e => rfl
    | ok threshold =>
      exact cyclesEvents_mapMemory hf context threshold _ _ (fun _ _ => rfl) maxPolls c
  | awaitService context line maxPolls => exact awaitEvents_mapMemory hf c context line maxPolls
  | measureLatency context line plan =>
    exact trialsEvents_mapMemory hf context line plan.maxPolls plan.trials c
  | store width offset value => exact bytesEvents_mapMemory f _ offset c
  | storeBytes offset bytes => exact bytesEvents_mapMemory f bytes offset c
  | access _ | setThreshold _ _ | reset | sampleAll _ | threshold _ | blocked _ _ | selectNext _
  | pendingRequest _ | load _ _ | isRequesting | size | serviceCount _ => rfl

/-- **With the image of its memory a run has the same history.** -/
theorem history_mapMemory (hf : Handler.Through f h h') (c : Controller σ)
    (ops : List Operation) : (c.mapMemory f).history h' ops = c.history h ops := by
  induction ops generalizing c with
  | nil => rfl
  | cons op ops ih => simp only [history, events_mapMemory hf, step_mapMemory hf, ih]

/-! ## The log of a run -/

/-- The controller with an empty log beside the memory of its handler. -/
def withLog (c : Controller σ) : Controller (σ × List Call) := c.mapMemory (·, [])

/-- The calls that the handler receives in a run. -/
def calls (h : Handler σ) (c : Controller σ) (ops : List Operation) : List Call :=
  (c.withLog.run h.logged ops).2.memory.2

/-- The deliveries that the handler is called with in a run. -/
def deliveries (h : Handler σ) (c : Controller σ) (ops : List Operation) : List Delivery :=
  (c.calls h ops).map Call.delivery

/-- A run is that of the logged handler, the log left aside. -/
theorem run_withLog (h : Handler σ) (c : Controller σ) (ops : List Operation) :
    c.run h ops =
      ((c.withLog.run h.logged ops).1, (c.withLog.run h.logged ops).2.mapMemory Prod.fst) :=
  run_mapMemory (Handler.through_fst h) c.withLog ops

/-- Logging the calls adds nothing to the history. -/
theorem history_withLog (h : Handler σ) (c : Controller σ) (ops : List Operation) :
    c.withLog.history h.logged ops = c.history h ops :=
  (history_mapMemory (Handler.through_fst h) c.withLog ops).symm

/-- A log goes on where the run before it has left off. -/
theorem calls_append (h : Handler σ) (c : Controller σ) (first second : List Operation) :
    c.calls h (first ++ second) = c.calls h first ++ (c.run h first).2.calls h second := by
  have hlog : (c.withLog.run h.logged first).2 =
      (c.run h first).2.withLog.mapMemory
        fun memory => (memory.1, c.calls h first ++ memory.2) := by
    rw [run_withLog h c first]
    simp [withLog, mapMemory, calls]
  have hrun := run_mapMemory (Handler.through_log h (c.calls h first)) (c.run h first).2.withLog
    second
  rw [← hlog] at hrun
  rw [calls, run_append]
  dsimp only
  rw [hrun]
  rfl

/-- An action adds its deliveries to the log, each with the table that the handler was shown. -/
theorem Action.log {h : Handler σ} {c c' : Controller (σ × List Call)} {es : List Event}
    (ha : Action h.logged c es c') :
    ∃ added, c'.memory.2 = c.memory.2 ++ added ∧ added.map Call.delivery = delivered es ∧
      ∀ call ∈ added, Call.Within c.table es call := by
  cases ha with
  | command cmd => exact ⟨[], (List.append_nil _).symm, rfl, by simp⟩
  | threshold context level =>
    refine ⟨[], ?_, rfl, by simp⟩
    simp only [setThreshold]
    split <;> simp
  | cleared => exact ⟨[], (List.append_nil _).symm, rfl, by simp⟩
  | idle _ _ => exact ⟨[], (List.append_nil _).symm, rfl, by simp⟩
  | @service context threshold r _ _ =>
    let given := c.tick.table.serve r.line
    let cmds := (h.deliver c.memory.1 (r.on context) given).2
    refine ⟨[⟨r.on context, given, given.applyAll cmds⟩], rfl, ?_, ?_⟩
    · show _ = [r.on context] ++ delivered (cmds.map .command)
      rw [delivered_commands]
      rfl
    · intro call hcall
      rw [List.mem_singleton] at hcall
      subst hcall
      exact ⟨[.tick], cmds, [], by rw [List.append_nil]; rfl, rfl, rfl⟩

/-- A course adds its deliveries to the log, each with the table that the handler was shown. -/
theorem Course.log {h : Handler σ} {c c' : Controller (σ × List Call)} {es : List Event}
    (hc : Course h.logged c es c') :
    ∃ added, c'.memory.2 = c.memory.2 ++ added ∧ added.map Call.delivery = delivered es ∧
      ∀ call ∈ added, Call.Within c.table es call := by
  induction hc with
  | nil c => exact ⟨[], by simp, rfl, by simp⟩
  | @cons c c' c'' es fs ha _ ih =>
    obtain ⟨added, hlog, hdel, hwithin⟩ := ha.log
    obtain ⟨later, hlog', hdel', hwithin'⟩ := ih
    refine ⟨added ++ later, by rw [hlog', hlog, List.append_assoc], ?_, ?_⟩
    · rw [List.map_append, hdel, hdel', delivered_append]
    · intro call hcall
      rcases List.mem_append.mp hcall with hmem | hmem
      · obtain ⟨first, cmds, rest, hes, hgiven, hleft⟩ := hwithin call hmem
        exact ⟨first, cmds, rest ++ fs, by rw [hes]; simp, hgiven, hleft⟩
      · obtain ⟨first, cmds, rest, hfs, hgiven, hleft⟩ := hwithin' call hmem
        refine ⟨es ++ first, cmds, rest, by rw [hfs]; simp, ?_, hleft⟩
        rw [hgiven, (Course.single ha).table, List.append_assoc, ← LineTable.replay_append]

/-- **The log has the deliveries of the history**, in their order. -/
theorem deliveries_eq (h : Handler σ) (c : Controller σ) (ops : List Operation) :
    c.deliveries h ops = delivered (c.history h ops) := by
  obtain ⟨added, hlog, hdel, -⟩ := (course_run h.logged c.withLog ops).log
  have hcalls : c.calls h ops = added := hlog
  rw [deliveries, hcalls, hdel, history_withLog]

/-- **Every call is found in the history.** -/
theorem of_mem_calls {h : Handler σ} {c : Controller σ} {ops : List Operation} {call : Call}
    (hcall : call ∈ c.calls h ops) : Call.Within c.table (c.history h ops) call := by
  obtain ⟨added, hlog, -, hwithin⟩ := (course_run h.logged c.withLog ops).log
  have hcalls : c.calls h ops = added := hlog
  rw [history_withLog] at hwithin
  exact hwithin call (hcalls ▸ hcall)

end Controller

end Irq
