import Irq.Operation

/-!
# Irq.History

What an operation does, as a list of single events: commands to the line table, whoever gave them,
new thresholds, beginnings of dispatch cycles and deliveries. `course_run` says that every run is a
course of actions, one after another, which leave just these events behind; an action is an event
that a client causes, or a dispatch cycle with all its events. What holds of every action thus holds
of every run, without regard to the operation or the loop that it came from. `forget_run` says that
the events of a run, carried out one after another, make what the run makes.
-/

namespace Irq

/-- One thing that happens to a controller. -/
inductive Event where
  /-- A command to the line table, from a client or from the handler. -/
  | command (cmd : Command)
  /-- A new threshold. -/
  | threshold (context : Nat) (level : UInt8)
  /-- The beginning of a dispatch cycle. -/
  | tick
  /-- A delivery: the line is claimed and its service recorded. -/
  | delivery (d : Delivery)
  /-- All thresholds back at 0, and an empty record. -/
  | cleared
  deriving DecidableEq

namespace Controller

variable {σ : Type}

/-- The controller without the handler's memory. -/
def forget (c : Controller σ) : Controller Unit := { c with memory := () }

/-- What an event makes of a controller. -/
def happen (c : Controller Unit) : Event → Controller Unit
  | .command cmd => (c.command cmd).2
  | .threshold context level => (c.setThreshold context level).2
  | .tick => c.tick
  | .delivery d =>
    { c with
      table := c.table.serve d.line
      record := c.record.add d.line d.priority (c.table.waited d.line) }
  | .cleared => { c with thresholds := c.thresholds.reset, record := c.record.reset }

/-- What a list of events makes of a controller. -/
def replay (c : Controller Unit) (events : List Event) : Controller Unit := events.foldl happen c

@[simp] theorem replay_nil (c : Controller Unit) : c.replay [] = c := rfl

@[simp] theorem replay_cons (c : Controller Unit) (e : Event) (es : List Event) :
    c.replay (e :: es) = (c.happen e).replay es := rfl

/-- Events can be replayed in two goes. -/
theorem replay_append (c : Controller Unit) (es fs : List Event) :
    c.replay (es ++ fs) = (c.replay es).replay fs := by
  simp [replay]

/-! ## The events of dispatch cycles -/

/-- The events of one dispatch cycle. -/
def cycleEvents (h : Handler σ) (context : Nat) (threshold : UInt8) (c : Controller σ) :
    List Event :=
  match c.tick.table.winner threshold with
  | none => [.tick]
  | some r =>
    .tick :: .delivery (r.on context) ::
      (h.deliver c.memory (r.on context) (c.tick.table.serve r.line)).2.map .command

/-- The events of repeated dispatch cycles. -/
def cyclesEvents (h : Handler σ) (context : Nat) (threshold : UInt8)
    (stop : Option Delivery → Controller σ → Bool) : Nat → Controller σ → List Event
  | 0, _ => []
  | budget + 1, c =>
    let (outcome, c') := cycle h context threshold c
    cycleEvents h context threshold c ++
      if stop outcome c' then [] else cyclesEvents h context threshold stop budget c'

/-- The events of waiting for a service. -/
def awaitEvents (h : Handler σ) (c : Controller σ) (context line maxPolls : Nat) : List Event :=
  match c.table.line line, c.thresholds.get context with
  | .ok _, .ok threshold =>
    cyclesEvents h context threshold (fun _ c' => c.record.count line < c'.record.count line)
      maxPolls c
  | _, _ => []

/-- The events of measuring trials. -/
def trialsEvents (h : Handler σ) (context line maxPolls : Nat) :
    Nat → Controller σ → List Event
  | 0, _ => []
  | trials + 1, c =>
    .command (.setPending line) ::
      match c.command (.setPending line) with
      | (.error _, _) => []
      | (.ok _, c) =>
        awaitEvents h c context line maxPolls ++
          match c.awaitService h context line maxPolls with
          | (.ok _, c) | (.error (.timeout _ _), c) => trialsEvents h context line maxPolls trials c
          | (.error _, _) => []

/-! ## The events of register writes -/

/-- The event that a write of a register amounts to. -/
def registerEvent (value : UInt8) : Registers.Register → Event
  | .line bank id => .command (bank.write id value)
  | .threshold context => .threshold context value

/-- The events of writing a byte. -/
def byteEvents (c : Controller σ) (offset : Nat) (value : UInt8) : List Event :=
  (c.register? offset).toList.map (registerEvent value)

/-- The events of writing bytes. -/
def bytesEvents : List UInt8 → Nat → Controller σ → List Event
  | [], _, _ => []
  | b :: bs, offset, c =>
    c.byteEvents offset b ++ bytesEvents bs (offset + 1) (c.writeByte offset b)

/-! ## The events of operations -/

/-- The events of an operation. Questions have none. -/
def events (h : Handler σ) (c : Controller σ) : Operation → List Event
  | .access a => a.command?.toList.map .command
  | .setThreshold context level => [.threshold context level]
  | .poll context =>
    match c.thresholds.get context with
    | .error _ => []
    | .ok threshold => cycleEvents h context threshold c
  | .drain context maxPolls =>
    match c.thresholds.get context with
    | .error _ => []
    | .ok threshold =>
      cyclesEvents h context threshold (fun outcome _ => outcome.isNone) maxPolls c
  | .awaitService context line maxPolls => awaitEvents h c context line maxPolls
  | .measureLatency context line plan =>
    trialsEvents h context line plan.maxPolls plan.trials c
  | .reset => [.command .reset, .cleared]
  | .store width offset value => bytesEvents (Bus.bytesOf width.bytes value) offset c
  | .storeBytes offset bytes => bytesEvents bytes offset c
  | .sampleAll signals =>
    signals.zipIdx.map fun (signal, id) => .command (.sample id signal)
  | .threshold _ | .blocked _ _ | .selectNext _ | .pendingRequest _ | .load _ _ | .isRequesting
  | .size | .serviceCount _ => []

/-- Sampling all inputs is a list of commands. -/
theorem events_sampleAll (h : Handler σ) (c : Controller σ) (signals : List Bool) :
    c.events h (.sampleAll signals) =
      (signals.zipIdx.map fun (signal, id) => Command.sample id signal).map .command := by
  rw [List.map_map]
  rfl

/-- The events of a run. -/
def history (h : Handler σ) (c : Controller σ) : List Operation → List Event
  | [] => []
  | op :: ops => c.events h op ++ history h (c.step h op).2 ops

/-- The history of a run in two goes is that of the first and then that of the second. -/
theorem history_append (h : Handler σ) (c : Controller σ) (first second : List Operation) :
    c.history h (first ++ second) = c.history h first ++ (c.run h first).2.history h second := by
  induction first generalizing c with
  | nil => rfl
  | cons op ops ih => simp [history, ih]

/-! ## Actions and courses -/

/-- What a controller does in one go, and the events of it: an event that its client causes, or a
dispatch cycle of a context that exists, with or without a service. -/
inductive Action (h : Handler σ) : Controller σ → List Event → Controller σ → Prop where
  | command (c : Controller σ) (cmd : Command) : Action h c [.command cmd] (c.command cmd).2
  | threshold (c : Controller σ) (context : Nat) (level : UInt8) :
      Action h c [.threshold context level] (c.setThreshold context level).2
  | cleared (c : Controller σ) :
      Action h c [.cleared] { c with thresholds := c.thresholds.reset, record := c.record.reset }
  | idle {c : Controller σ} {context : Nat} {threshold : UInt8} :
      c.thresholds.get context = .ok threshold → c.table.winner threshold = none →
      Action h c [.tick] c.tick
  | service {c : Controller σ} {context : Nat} {threshold : UInt8} {r : Request} :
      c.thresholds.get context = .ok threshold → c.table.winner threshold = some r →
      Action h c
        (.tick :: .delivery (r.on context) ::
          (h.deliver c.memory (r.on context) (c.tick.table.serve r.line)).2.map .command)
        (c.tick.serve h (r.on context))

/-- Any number of actions, one after another, and all their events. -/
inductive Course (h : Handler σ) : Controller σ → List Event → Controller σ → Prop where
  | nil (c : Controller σ) : Course h c [] c
  | cons {c c' c'' : Controller σ} {es fs : List Event} :
      Action h c es c' → Course h c' fs c'' → Course h c (es ++ fs) c''

namespace Course

/-- One action is a course. -/
theorem single {h : Handler σ} {c c' : Controller σ} {es : List Event} (ha : Action h c es c') :
    Course h c es c' := by
  rw [← List.append_nil es]
  exact .cons ha (.nil c')

/-- Courses that meet are one course. -/
theorem append {h : Handler σ} {c c' c'' : Controller σ} {es fs : List Event}
    (first : Course h c es c') (second : Course h c' fs c'') : Course h c (es ++ fs) c'' := by
  induction first with
  | nil c => exact second
  | cons ha _ ih =>
    rw [List.append_assoc]
    exact .cons ha (ih second)

/-- **What every action keeps, a course keeps.** -/
theorem invariant {h : Handler σ} {c c' : Controller σ} {es : List Event}
    (hc : Course h c es c') (keep : Controller σ → Prop)
    (keeps : ∀ {c c' : Controller σ} {es : List Event}, Action h c es c' → keep c → keep c')
    (start : keep c) : keep c' := by
  induction hc with
  | nil c => exact start
  | cons ha _ ih => exact ih (keeps ha start)

end Course

/-! ## Every run is a course -/

/-- Commands to the line table are a course of as many events. -/
theorem course_commands (h : Handler σ) (c : Controller σ) (cmds : List Command) :
    Course h c (cmds.map .command) { c with table := c.table.applyAll cmds } := by
  induction cmds generalizing c with
  | nil => exact .nil c
  | cons cmd cmds ih => exact .cons (.command c cmd) (ih (c.command cmd).2)

/-- A cycle is a course of the events that it makes. -/
theorem course_cycle (h : Handler σ) {c : Controller σ} {context : Nat} {threshold : UInt8}
    (hg : c.thresholds.get context = .ok threshold) :
    Course h c (cycleEvents h context threshold c) (cycle h context threshold c).2 := by
  have hw : c.tick.table.winner threshold = c.table.winner threshold :=
    LineTable.winner_tick c.table threshold
  unfold cycle cycleEvents
  rw [hw]
  cases hr : c.table.winner threshold with
  | none => exact .single (.idle hg hr)
  | some r => exact .single (.service hg hr)

/-- Repeated cycles are a course of the events of all of them. -/
theorem course_cyclesUntil (h : Handler σ) {context : Nat} {threshold : UInt8}
    (stop : Option Delivery → Controller σ → Bool) (budget : Nat)
    (earlier : List (Option Delivery)) {c : Controller σ}
    (hg : c.thresholds.get context = .ok threshold) :
    Course h c (cyclesEvents h context threshold stop budget c)
      (cyclesUntil h context threshold stop budget earlier c).2 := by
  induction budget generalizing earlier c with
  | zero => exact .nil c
  | succ budget ih =>
    simp only [cyclesUntil_succ, cyclesEvents]
    refine (course_cycle h hg).append ?_
    split
    · exact .nil _
    · exact ih _ (get_cycle h hg)

/-- A wait is a course of the events of its cycles. -/
theorem course_awaitService (h : Handler σ) (c : Controller σ) (context line maxPolls : Nat) :
    Course h c (awaitEvents h c context line maxPolls)
      (c.awaitService h context line maxPolls).2 := by
  unfold awaitService awaitEvents
  cases c.table.line line with
  | error e => exact .nil c
  | ok l =>
    cases hg : c.thresholds.get context with
    | error e => exact .nil c
    | ok threshold =>
      have hc := course_cyclesUntil h (fun _ c' => c.record.count line < c'.record.count line)
        maxPolls [] hg
      dsimp only
      split <;> exact hc

/-- A measurement is a course of its triggers and waits. -/
theorem course_runTrials (h : Handler σ) (context trials : Nat) (report : LatencyReport)
    (c : Controller σ) :
    Course h c (trialsEvents h context report.line report.maxPolls trials c)
      (runTrials h context trials report c).2 := by
  induction trials generalizing report c with
  | zero => exact .nil c
  | succ trials ih =>
    have hcommand : Course h c [.command (.setPending report.line)]
        (c.command (.setPending report.line)).2 := .single (.command c _)
    simp only [runTrials, trialsEvents]
    cases hc : c.command (.setPending report.line) with
    | mk result c' =>
      rw [hc] at hcommand
      refine hcommand.append ?_
      cases result with
      | error e => exact .nil c'
      | ok _ =>
        have hwait := course_awaitService h c' context report.line report.maxPolls
        dsimp only
        cases hw : c'.awaitService h context report.line report.maxPolls with
        | mk answer c'' =>
          rw [hw] at hwait
          refine hwait.append ?_
          cases answer with
          | ok polls => exact ih (report.addSample polls) c''
          | error e =>
            cases e with
            | timeout _ _ => exact ih report.addTimeout c''
            | invalidLine _ _ | invalidContext _ _ => exact .nil c''

/-- A write to a register is a course of the event that it stands for, if any. -/
theorem course_writeByte (h : Handler σ) (c : Controller σ) (offset : Nat) (value : UInt8) :
    Course h c (c.byteEvents offset value) (c.writeByte offset value) := by
  unfold writeByte byteEvents
  cases c.register? offset with
  | none => exact .nil c
  | some r =>
    cases r with
    | line bank id => exact .single (.command c (bank.write id value))
    | threshold context => exact .single (.threshold c context value)

/-- A write of several bytes is a course of the events of each of them. -/
theorem course_storeBytes (h : Handler σ) (c : Controller σ) (offset : Nat) (bytes : List UInt8) :
    Course h c (bytesEvents bytes offset c) (Bus.storeBytes bytes offset c) := by
  induction bytes generalizing offset c with
  | nil => exact .nil c
  | cons b bs ih => exact (course_writeByte h c offset b).append (ih _ (offset + 1))

/-- **Every operation is a course of actions**, which leave its events behind. -/
theorem course_step (h : Handler σ) (c : Controller σ) (op : Operation) :
    Course h c (c.events h op) (c.step h op).2 := by
  cases op with
  | access a =>
    cases a with
    | command cmd => exact .single (.command c cmd)
    | isPending _ | isEnabled _ | line _ | lineText _ | summary => exact .nil c
  | setThreshold context level => exact .single (.threshold c context level)
  | poll context =>
    simp only [step, events, poll]
    cases hg : c.thresholds.get context with
    | error e => exact .nil c
    | ok threshold => exact course_cycle h hg
  | drain context maxPolls =>
    simp only [step, events, drain]
    cases hg : c.thresholds.get context with
    | error e => exact .nil c
    | ok threshold => exact course_cyclesUntil h _ maxPolls [] hg
  | awaitService context line maxPolls => exact course_awaitService h c context line maxPolls
  | measureLatency context line plan =>
    exact course_runTrials h context plan.trials { line, maxPolls := plan.maxPolls } c
  | reset => exact .cons (.command c .reset) (.single (.cleared _))
  | store width offset value => exact course_storeBytes h c offset _
  | storeBytes offset bytes => exact course_storeBytes h c offset bytes
  | sampleAll signals =>
    rw [events_sampleAll]
    exact course_commands h c _
  | load width offset =>
    simp only [step, events, Bus.load, snd_loadBytes]
    exact .nil c
  | threshold _ | blocked _ _ | selectNext _ | pendingRequest _ | isRequesting | size
  | serviceCount _ => exact .nil c

/-- **Every run is a course of actions**, which leave its history behind. -/
theorem course_run (h : Handler σ) (c : Controller σ) (ops : List Operation) :
    Course h c (c.history h ops) (c.run h ops).2 := by
  induction ops generalizing c with
  | nil => exact .nil c
  | cons op ops ih => exact (course_step h c op).append (ih _)

/-! ## The events make what the actions make -/

/-- To replay commands is to give them. -/
theorem replay_commands (c : Controller Unit) (cmds : List Command) :
    c.replay (cmds.map .command) = { c with table := c.table.applyAll cmds } := by
  induction cmds generalizing c with
  | nil => rfl
  | cons cmd cmds ih => simp [ih, happen, command]

/-- What an action does apart from the handler's memory, its events do. -/
theorem Action.forget {h : Handler σ} {c c' : Controller σ} {es : List Event}
    (ha : Action h c es c') : c'.forget = c.forget.replay es := by
  cases ha with
  | threshold context level =>
    simp only [replay_cons, replay_nil, happen, setThreshold, Controller.forget]
    split <;> rfl
  | service =>
    simp only [replay_cons, replay_commands]
    rfl
  | command | cleared | idle => rfl

/-- What a course does apart from the handler's memory, its events do. -/
theorem Course.forget {h : Handler σ} {c c' : Controller σ} {es : List Event}
    (hc : Course h c es c') : c'.forget = c.forget.replay es := by
  induction hc with
  | nil c => rfl
  | cons ha _ ih => rw [ih, ha.forget, replay_append]

/-- **The history of a run makes what the run makes.** -/
theorem forget_run (h : Handler σ) (c : Controller σ) (ops : List Operation) :
    (c.run h ops).2.forget = c.forget.replay (c.history h ops) :=
  (course_run h c ops).forget

end Controller

end Irq
