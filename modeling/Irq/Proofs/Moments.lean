import Irq.History

/-!
# Irq.Proofs.Moments

The line table from event to event. A moment is one event of a history together with the table that
it happens to, so that statements about a history can speak of what held when an event happened.
`getElem?_happen` says what an event makes of a single line; `Course.of_delivery` says where
deliveries come from: each follows upon the beginning of its cycle, and is of the line that
arbitration chose there.
-/

namespace Irq

/-! ## What an event makes of the lines -/

/-- Whether a command concerns a line. -/
def Command.concerns (cmd : Command) (line : Nat) : Bool := cmd.line?.all (· == line)

/-- The delivery among the events, if it is one. -/
def Event.delivery? : Event → Option Delivery
  | delivery d => some d
  | command _ | threshold _ _ | tick | cleared => none

/-- What an event makes of one line of a table. -/
def Event.effect (t : LineTable) (line : Nat) : Event → Line → Line
  | command cmd, l => if cmd.concerns line then t.effect cmd l else l
  | delivery d, l => if d.line = line then l.serve t.now else l
  | threshold _ _, l | tick, l | cleared, l => l

namespace LineTable

/-- What an event makes of a table. -/
def happen (t : LineTable) : Event → LineTable
  | .command cmd => t.apply cmd
  | .tick => t.tick
  | .delivery d => t.serve d.line
  | .threshold _ _ | .cleared => t

/-- What a list of events makes of a table. -/
def replay (t : LineTable) (events : List Event) : LineTable := events.foldl happen t

/-- Whether a line is pending. A line that does not exist is not. -/
def isPending (t : LineTable) (line : Nat) : Bool := t.lines[line]?.any Line.pending

/-- Whether a line exists and is read in the given way. -/
def isTriggered (t : LineTable) (line : Nat) (trigger : Trigger) : Bool :=
  t.lines[line]?.any fun l => l.attributes.trigger == trigger

@[simp] theorem replay_nil (t : LineTable) : t.replay [] = t := rfl

@[simp] theorem replay_cons (t : LineTable) (e : Event) (es : List Event) :
    t.replay (e :: es) = (t.happen e).replay es := rfl

theorem replay_append (t : LineTable) (es fs : List Event) :
    t.replay (es ++ fs) = (t.replay es).replay fs := by
  simp [replay]

/-- **What a command does**: to the lines it concerns its effect, and nothing to all others. -/
theorem getElem?_apply (t : LineTable) (cmd : Command) (i : Nat) :
    (t.apply cmd).lines[i]? =
      t.lines[i]?.map fun l => if cmd.concerns i then t.effect cmd l else l := by
  cases hrun : t.run cmd with
  | error e =>
    obtain ⟨id, hid, hle, -⟩ := run_eq_error_iff.mp hrun
    rw [apply_of_error hrun]
    by_cases hi : id = i
    · have hnone : t.lines[i]? = none := Array.getElem?_eq_none (hi ▸ hle)
      rw [hnone, Option.map_none]
    · have hfar : cmd.concerns i = false := by simp [Command.concerns, hid, hi]
      simp [hfar]
  | ok t' =>
    rw [apply_of_ok hrun]
    unfold run at hrun
    cases hid : cmd.line? with
    | none =>
      rw [hid] at hrun
      cases hrun
      simp [Command.concerns, hid]
    | some id =>
      rw [hid] at hrun
      rw [getElem?_modify hrun i]
      by_cases hi : id = i <;> simp [Command.concerns, hid, hi]

/-- What a command does to a line depends on the mask and the clock of the table alone. -/
theorem effect_apply (t : LineTable) (cmd : Command) : (t.apply cmd).effect = t.effect := by
  funext cmd' l
  cases cmd' <;> simp only [effect, maskPriority, now_apply, priorityMask_apply]

/-- **What commands do to one line**: those that concern it have their effects, in their order. -/
theorem getElem?_applyAll (t : LineTable) (cmds : List Command) (i : Nat) :
    (t.applyAll cmds).lines[i]? =
      t.lines[i]?.map fun l =>
        (cmds.filter (·.concerns i)).foldl (fun l cmd => t.effect cmd l) l := by
  induction cmds generalizing t with
  | nil => simp
  | cons cmd cmds ih =>
    rw [applyAll_cons, ih, getElem?_apply, effect_apply, Option.map_map]
    cases hc : cmd.concerns i <;> simp [Function.comp_def, hc]

/-- A service changes the line served and no other. -/
theorem getElem?_serve (t : LineTable) (id i : Nat) :
    (t.serve id).lines[i]? = t.lines[i]?.map fun l => if id = i then l.serve t.now else l := by
  rw [serve, Array.getElem?_modify]
  by_cases hi : id = i <;> simp [hi]

/-- **What an event does to one line.** -/
theorem getElem?_happen (t : LineTable) (e : Event) (i : Nat) :
    (t.happen e).lines[i]? = t.lines[i]?.map (e.effect t i) := by
  cases e with
  | command cmd => exact getElem?_apply t cmd i
  | delivery d => exact getElem?_serve t d.line i
  | threshold _ _ | tick | cleared =>
    simp only [happen, tick]
    cases t.lines[i]? <;> rfl

/-- To replay commands is to carry them out. -/
theorem replay_commands (t : LineTable) (cmds : List Command) :
    t.replay (cmds.map .command) = t.applyAll cmds := by
  rw [replay, List.foldl_map]
  rfl

/-- Commands given after other events are events after them. -/
theorem applyAll_replay (t : LineTable) (first : List Event) (e : Event) (cmds : List Command) :
    (t.replay (first ++ [e])).applyAll cmds = t.replay (first ++ e :: cmds.map .command) := by
  rw [← replay_commands, ← replay_append, List.append_assoc, List.singleton_append]

/-- No event makes a line or takes one away. -/
@[simp] theorem size_happen (t : LineTable) (e : Event) : (t.happen e).size = t.size := by
  cases e <;> simp [happen]

@[simp] theorem size_replay (t : LineTable) (es : List Event) : (t.replay es).size = t.size := by
  induction es generalizing t with
  | nil => rfl
  | cons e es ih => rw [replay_cons, ih, size_happen]

@[simp] theorem priorityMask_happen (t : LineTable) (e : Event) :
    (t.happen e).priorityMask = t.priorityMask := by
  cases e <;> simp [happen, tick, serve]

theorem isPending_eq {t : LineTable} {line : Nat} {l : Line} (hl : t.lines[line]? = some l) :
    t.isPending line = l.pending := by
  simp [isPending, hl]

theorem isTriggered_eq {t : LineTable} {line : Nat} {l : Line} (hl : t.lines[line]? = some l)
    (trigger : Trigger) : t.isTriggered line trigger = (l.attributes.trigger == trigger) := by
  rw [isTriggered, hl, Option.any_some]

/-- A line is read in one way. -/
theorem isTriggered_unique {t : LineTable} {line : Nat} {a b : Trigger}
    (ha : t.isTriggered line a = true) (hb : t.isTriggered line b = true) : a = b := by
  obtain ⟨l, hl, hread⟩ := (Option.any_eq_true ..).mp ha
  rw [isTriggered_eq hl, beq_iff_eq] at hb
  exact (beq_iff_eq.mp hread).symm.trans hb

/-- A line is pending after an event as the event has left it. -/
theorem isPending_happen {t : LineTable} {line : Nat} {l : Line} (hl : t.lines[line]? = some l)
    (e : Event) : (t.happen e).isPending line = (e.effect t line l).pending := by
  rw [isPending, getElem?_happen, hl]
  rfl

end LineTable

/-! ## Moments -/

/-- An event, and the table just before it. -/
structure Moment where
  before : LineTable
  event : Event

namespace Moment

/-- The table just after the event. -/
def after (m : Moment) : LineTable := m.before.happen m.event

/-- Whether a poll begins at this moment. -/
def isPoll (m : Moment) : Bool := m.event == .tick

/-- Whether a line is serviced at this moment. -/
def serves (line : Nat) (m : Moment) : Bool := m.event.delivery?.any (·.line == line)

/-- A moment serves a line if it is a delivery to it. -/
theorem serves_iff {line : Nat} {m : Moment} :
    m.serves line = true ↔ ∃ d, m.event = .delivery d ∧ d.line = line := by
  unfold serves
  cases m.event <;> simp [Event.delivery?]

end Moment

/-- The moments of a list of events that happen to a table. -/
def LineTable.moments (t : LineTable) : List Event → List Moment
  | [] => []
  | e :: es => ⟨t, e⟩ :: (t.happen e).moments es

/-- The number of polls begun in a list of events. -/
def polls (events : List Event) : Nat := events.count .tick

theorem polls_cons (e : Event) (es : List Event) : polls (e :: es) = polls [e] + polls es := by
  rw [polls, polls, polls, ← List.count_append, List.singleton_append]

/-- The deliveries in a list of events. -/
def delivered (events : List Event) : List Delivery := events.filterMap Event.delivery?

@[simp] theorem delivered_append (es fs : List Event) :
    delivered (es ++ fs) = delivered es ++ delivered fs := by
  simp [delivered]

/-- Commands deliver nothing. -/
@[simp] theorem delivered_commands (cmds : List Command) :
    delivered (cmds.map .command) = [] := by
  simp [delivered, Event.delivery?, List.filterMap_map, Function.comp_def]

namespace LineTable

/-- The clock counts the polls. -/
theorem now_happen (t : LineTable) (e : Event) : (t.happen e).now = t.now + polls [e] := by
  cases e <;> simp [happen, tick, serve, polls]

theorem moments_append (t : LineTable) (es fs : List Event) :
    t.moments (es ++ fs) = t.moments es ++ (t.replay es).moments fs := by
  induction es generalizing t with
  | nil => rfl
  | cons e es ih => simp [moments, ih]

/-- **What one event keeps of past and table, events keep**, while their moments join the past. -/
theorem replay_invariant {keep : List Moment → LineTable → Prop}
    (keeps : ∀ {past : List Moment} {t : LineTable} (e : Event),
      keep past t → keep (past ++ [⟨t, e⟩]) (t.happen e))
    {past : List Moment} {t : LineTable} (start : keep past t) (es : List Event) :
    keep (past ++ t.moments es) (t.replay es) := by
  induction es generalizing past t with
  | nil =>
    rw [moments, List.append_nil]
    exact start
  | cons e es ih =>
    have hrest := ih (keeps e start)
    rw [List.append_assoc] at hrest
    exact hrest

/-- The services of a line are its deliveries. -/
theorem countP_serves (t : LineTable) (es : List Event) (line : Nat) :
    (t.moments es).countP (Moment.serves line) = (delivered es).countP (·.line == line) := by
  induction es generalizing t with
  | nil => rfl
  | cons e es ih =>
    rw [moments, List.countP_cons, ih, ← List.singleton_append, delivered_append,
      List.countP_append]
    cases e <;> simp [Moment.serves, delivered, Event.delivery?, Nat.add_comm, List.countP_cons]

/-- A moment of a history is one of its events, with what the events before it have made. -/
theorem mem_moments_iff {t : LineTable} {es : List Event} {m : Moment} :
    m ∈ t.moments es ↔
      ∃ first rest, es = first ++ m.event :: rest ∧ m.before = t.replay first := by
  induction es generalizing t with
  | nil => simp [moments]
  | cons e es ih =>
    rw [moments, List.mem_cons, ih]
    constructor
    · rintro (rfl | ⟨first, rest, hes, hm⟩)
      · exact ⟨[], es, rfl, rfl⟩
      · exact ⟨e :: first, rest, by rw [hes]; rfl, hm⟩
    · rintro ⟨first, rest, hes, hm⟩
      cases first with
      | nil =>
        cases hes
        exact .inl (by cases m; cases hm; rfl)
      | cons e' first =>
        cases hes
        exact .inr ⟨first, rest, rfl, hm⟩

end LineTable

namespace Controller

variable {σ : Type}

/-- The moments of a run. -/
def moments (h : Handler σ) (c : Controller σ) (ops : List Operation) : List Moment :=
  c.table.moments (c.history h ops)

theorem table_happen (c : Controller Unit) (e : Event) :
    (c.happen e).table = c.table.happen e := by
  cases e with
  | threshold context level =>
    simp only [happen, setThreshold, LineTable.happen]
    split <;> rfl
  | command _ | tick | delivery _ | cleared => rfl

/-- Events do to the table of a controller what they do to a table. -/
theorem table_replay (c : Controller Unit) (es : List Event) :
    (c.replay es).table = c.table.replay es := by
  induction es generalizing c with
  | nil => rfl
  | cons e es ih => rw [replay_cons, ih, table_happen, LineTable.replay_cons]

/-- The table after a course is the table before it with the events replayed. -/
theorem Course.table {h : Handler σ} {c c' : Controller σ} {es : List Event}
    (hc : Course h c es c') : c'.table = c.table.replay es := by
  have hforget := congrArg Controller.table hc.forget
  rwa [table_replay] at hforget

theorem moments_append (h : Handler σ) (c : Controller σ) (first second : List Operation) :
    c.moments h (first ++ second) = c.moments h first ++ (c.run h first).2.moments h second := by
  rw [moments, history_append, LineTable.moments_append, ← (course_run h c first).table]
  rfl

/-! ## What stays as large as it is -/

/-- No action changes how many counts and thresholds there are. -/
theorem Action.sizes {h : Handler σ} {c c' : Controller σ} {es : List Event}
    (ha : Action h c es c') :
    c'.record.counts.size = c.record.counts.size ∧ c'.thresholds.size = c.thresholds.size := by
  cases ha with
  | command cmd => exact ⟨rfl, rfl⟩
  | threshold context level =>
    unfold setThreshold
    split
    · next hset => exact ⟨rfl, Thresholds.size_set hset⟩
    · exact ⟨rfl, rfl⟩
  | cleared => exact ⟨ServiceRecord.size_counts_reset _, Thresholds.size_reset _⟩
  | idle _ _ => exact ⟨rfl, rfl⟩
  | service _ _ => exact ⟨ServiceRecord.size_counts_add _ _ _ _, rfl⟩

/-- No course of actions changes the number of counts or of contexts. -/
theorem Course.sizes {h : Handler σ} {c c' : Controller σ} {es : List Event}
    (hc : Course h c es c') :
    c'.record.counts.size = c.record.counts.size ∧ c'.thresholds.size = c.thresholds.size := by
  let kept (d : Controller σ) : Prop :=
    d.record.counts.size = c.record.counts.size ∧ d.thresholds.size = c.thresholds.size
  refine hc.invariant kept ?_ ⟨rfl, rfl⟩
  intro d d' fs ha hd
  exact ⟨ha.sizes.1.trans hd.1, ha.sizes.2.trans hd.2⟩

/-- After any run there is a count for each line. -/
theorem size_counts_run (g : Geometry) (memory : σ) (h : Handler σ) (ops : List Operation) :
    ((ofGeometry g memory).run h ops).2.record.counts.size = g.lines := by
  rw [(course_run h (ofGeometry g memory) ops).sizes.1]
  exact ServiceRecord.size_counts_ofSize g.lines

/-! ## Where deliveries come from -/

/-- A delivery in an action comes right after a poll, and goes to the winner. -/
theorem Action.of_delivery {h : Handler σ} {c c' : Controller σ} {es before after : List Event}
    {d : Delivery} (ha : Action h c es c') (hes : es = before ++ .delivery d :: after) :
    before = [.tick] ∧ ∃ threshold, c.thresholds.get d.context = .ok threshold ∧
      c.table.winner threshold = some ⟨d.line, d.priority⟩ := by
  cases ha with
  | command cmd => cases before <;> simp at hes
  | threshold context level => cases before <;> simp at hes
  | cleared => cases before <;> simp at hes
  | idle _ _ => cases before <;> simp at hes
  | service hg hr =>
    cases before with
    | nil => simp at hes
    | cons e before =>
      cases before with
      | nil =>
        simp only [List.cons_append, List.nil_append, List.cons.injEq, Event.delivery.injEq] at hes
        obtain ⟨he, hd, -⟩ := hes
        rw [← hd, ← he]
        exact ⟨rfl, _, hg, hr⟩
      | cons e' before =>
        simp only [List.cons_append, List.cons.injEq] at hes
        have hmem : Event.delivery d ∈ before ++ .delivery d :: after := by simp
        rw [← hes.2.2, List.mem_map] at hmem
        obtain ⟨cmd, -, hcmd⟩ := hmem
        cases hcmd

/-- **Where a delivery comes from**: a poll of its context has just begun, and its line is the one
that arbitration chooses there. In a longer course it belongs either to the first action or to what
follows it. -/
theorem Course.of_delivery {h : Handler σ} {c c' : Controller σ} {es before after : List Event}
    {d : Delivery} (hc : Course h c es c') (hes : es = before ++ .delivery d :: after) :
    ∃ earlier threshold, before = earlier ++ [.tick] ∧
      (c.forget.replay earlier).thresholds.get d.context = .ok threshold ∧
      (c.table.replay earlier).winner threshold = some ⟨d.line, d.priority⟩ := by
  induction hc generalizing before with
  | nil c => simp at hes
  | @cons c c' c'' es fs ha _ ih =>
    rcases List.append_eq_append_iff.mp hes with ⟨rest, rfl, hfs⟩ | ⟨rest, rfl, hrest⟩
    · obtain ⟨earlier, threshold, rfl, hg, hw⟩ := ih hfs
      refine ⟨es ++ earlier, threshold, by simp, ?_, ?_⟩
      · rwa [replay_append, ← ha.forget]
      · have htable := (Course.single ha).table
        rwa [LineTable.replay_append, ← htable]
    · cases rest with
      | nil =>
        have hfirst : fs = [] ++ .delivery d :: after := hrest.symm
        obtain ⟨earlier, _, hnil, -⟩ := ih hfirst
        simp at hnil
      | cons e rest =>
        cases hrest
        obtain ⟨rfl, threshold, hg, hw⟩ := ha.of_delivery rfl
        exact ⟨[], threshold, rfl, hg, hw⟩

/-- **What is delivered**: a line that is enabled and pending, with the priority that it has. -/
theorem active_of_delivery {h : Handler σ} {c : Controller σ} {ops : List Operation} {m : Moment}
    {d : Delivery} (hm : m ∈ c.moments h ops) (hd : m.event = .delivery d) :
    ∃ l, m.before.lines[d.line]? = some l ∧ l.isActive = true ∧ l.priority = d.priority := by
  obtain ⟨first, rest, hes, hbefore⟩ := LineTable.mem_moments_iff.mp hm
  rw [hd] at hes
  obtain ⟨earlier, threshold, rfl, -, hw⟩ := (course_run h c ops).of_delivery hes
  obtain ⟨l, hl, he, hr⟩ := LineTable.request?_eq_some_iff.mp (LineTable.winnerBelow_sound hw).2
  have hlines : m.before.lines = (c.table.replay earlier).lines := by
    rw [hbefore, LineTable.replay_append]
    rfl
  have hactive : l.isActive = true := by
    rw [Line.isEligible, Bool.and_eq_true] at he
    exact he.1
  exact ⟨l, by rw [hlines]; exact hl, hactive, (Request.mk.inj hr).2.symm⟩

/-- **A line is pending when it is delivered.** -/
theorem pending_of_delivery {h : Handler σ} {c : Controller σ} {ops : List Operation} {m : Moment}
    (hm : m ∈ c.moments h ops) {d : Delivery} (hd : m.event = .delivery d) :
    m.before.isPending d.line = true := by
  obtain ⟨l, hl, hactive, -⟩ := active_of_delivery hm hd
  rw [Line.isActive, Bool.and_eq_true] at hactive
  rw [LineTable.isPending_eq hl]
  exact hactive.2

end Controller

end Irq
