import Irq.Proofs.CallLog
import Irq.Proofs.Untimed

/-!
# Irq.Proofs.Acknowledged

Acknowledged level lines are edge lines. A service takes the request of an edge line before the
handler is called; a level line keeps its request, gets a new stamp, and loses both when the handler
acknowledges. In the end the same is left of either. So a controller whose handler acknowledges
everything does what it would do if all of its lines were edge triggered and its handler did
nothing, as long as nobody samples an input or asks for a trigger: those alone could tell.
-/

namespace Irq

/-! ## Edge triggered instead -/

/-- The line as it would be if it were edge triggered. -/
def Line.edged (l : Line) : Line := { l with attributes := { l.attributes with trigger := .edge } }

/-- The table as it would be if all lines were edge triggered. -/
def LineTable.edged (t : LineTable) : LineTable := { t with lines := t.lines.map Line.edged }

/-- The controller as it would be if all lines were edge triggered. -/
def Controller.edged {σ : Type} (c : Controller σ) : Controller σ :=
  { c with table := c.table.edged }

/-- The command that makes a line edge triggered where the given one configures it. -/
def Command.edged : Command → Command
  | configure id priority attributes => configure id priority { attributes with trigger := .edge }
  | cmd => cmd

/-- The access with such a command in place of its own. -/
def Access.edged : Access → Access
  | command cmd => command cmd.edged
  | a => a

/-- The operation with such an access in place of its own. -/
def Operation.edged : Operation → Operation
  | access a => access a.edged
  | op => op

/-- Whether a command neither samples an input nor goes by an attribute byte. -/
def Command.isModeBlind : Command → Bool
  | sample _ _ | setAttributes _ _ => false
  | configure _ _ _ | setPriority _ _ | enable _ | disable _ | setPending _ | clearPending _
  | reset => true

/-- Whether an access has no other command, and does not ask for the state of a line, which shows
its attributes. -/
def Access.isModeBlind : Access → Bool
  | command cmd => cmd.isModeBlind
  | line _ | lineText _ => false
  | isPending _ | isEnabled _ | summary => true

/-- Whether an operation has no other access, and leaves registers and inputs alone. -/
def Operation.isModeBlind : Operation → Bool
  | access a => a.isModeBlind
  | load _ _ | store _ _ _ | storeBytes _ _ | sampleAll _ => false
  | setThreshold _ _ | threshold _ | blocked _ _ | selectNext _ | pendingRequest _ | poll _
  | drain _ _ | awaitService _ _ _ | measureLatency _ _ _ | reset | isRequesting | size
  | serviceCount _ => true

@[simp] theorem Command.line?_edged (cmd : Command) : cmd.edged.line? = cmd.line? := by
  cases cmd <;> rfl

/-! ## Tables -/

namespace Line

/-- A trigger does the same to a line made an edge line. -/
theorem raise_edged (now : Nat) (l : Line) : l.edged.raise now = (l.raise now).edged := by
  cases hp : l.pending with
  | true => rw [raise_of_pending hp, raise_of_pending (l := l.edged) hp]
  | false =>
    rw [raise_of_not_pending hp, raise_of_not_pending (l := l.edged) hp]
    rfl

/-- An edge line is serviced as any line is serviced and acknowledged. -/
theorem serve_edged (now : Nat) (l : Line) : l.edged.serve now = (l.serve now).lower.edged := by
  rw [lower_serve]
  rfl

end Line

namespace LineTable

theorem getElem?_edged (t : LineTable) (i : Nat) : t.edged.lines[i]? = t.lines[i]?.map Line.edged :=
  Array.getElem?_map

@[simp] theorem size_edged (t : LineTable) : t.edged.size = t.size := Array.size_map

/-- Arbitration does not look at triggers. -/
@[simp] theorem winner_edged (t : LineTable) (threshold : UInt8) :
    t.edged.winner threshold = t.winner threshold :=
  @winner_map t t.edged _ rfl (fun _ => rfl) (fun _ => rfl) threshold

/-- How long a line has waited does not depend on its trigger. -/
@[simp] theorem waited_edged (t : LineTable) (id : Nat) : t.edged.waited id = t.waited id := by
  unfold waited
  rw [getElem?_edged, Option.bind_map]
  rfl

/-- A command that is blind to triggers does the same to a line made an edge line. -/
theorem effect_edged (t : LineTable) {cmd : Command} (hcmd : cmd.isModeBlind = true) (l : Line) :
    t.edged.effect cmd.edged l.edged = (t.effect cmd l).edged := by
  cases cmd with
  | setPending => exact Line.raise_edged t.now l
  | configure | setPriority | enable | disable | clearPending | reset => rfl
  | sample | setAttributes => cases hcmd

/-- A command does to edge lines what it does to the others. -/
theorem apply_edged (t : LineTable) {cmd : Command} (hcmd : cmd.isModeBlind = true) :
    t.edged.apply cmd.edged = (t.apply cmd).edged := by
  refine ext_lines ?_ ?_ fun i => ?_
  · show (t.edged.apply cmd.edged).priorityMask = (t.apply cmd).priorityMask
    rw [priorityMask_apply, priorityMask_apply]
    rfl
  · show (t.edged.apply cmd.edged).now = (t.apply cmd).now
    rw [now_apply, now_apply]
    rfl
  · have hconcerns : cmd.edged.concerns i = cmd.concerns i := by
      rw [Command.concerns, Command.line?_edged, Command.concerns]
    rw [getElem?_apply, getElem?_edged, getElem?_edged, getElem?_apply, hconcerns, Option.map_map,
      Option.map_map]
    congr 1
    funext l
    cases cmd.concerns i <;> simp [effect_edged t hcmd]

/-- **A service that is acknowledged is the service of an edge line.** -/
theorem serve_edged (t : LineTable) (id : Nat) :
    t.edged.serve id = ((t.serve id).apply (.clearPending id)).edged := by
  refine ext_lines ?_ ?_ fun i => ?_
  · show t.priorityMask = ((t.serve id).apply (.clearPending id)).priorityMask
    rw [priorityMask_apply]
    rfl
  · show t.now = ((t.serve id).apply (.clearPending id)).now
    rw [now_apply]
    rfl
  · rw [getElem?_edged, getElem?_apply]
    simp only [serve, Array.getElem?_modify, getElem?_edged]
    have hconcerns : (Command.clearPending id).concerns i = (id == i) := rfl
    rw [hconcerns]
    by_cases hi : id = i
    · rw [if_pos hi, if_pos hi, Option.map_map, Option.map_map, Option.map_map]
      congr 1
      funext l
      simp only [Function.comp_apply, if_pos (beq_iff_eq.mpr hi)]
      exact Line.serve_edged t.now l
    · simp [hi]

/-- **Edge lines answer an access as the others do**, and become what those become. -/
theorem access_edged (t : LineTable) {a : Access} (ha : a.isModeBlind = true) :
    t.edged.access a.edged = ((t.access a).1, (t.access a).2.edged) := by
  cases a with
  | command cmd =>
    have hrun := map_run_congr (size_edged t) (Command.line?_edged cmd) Answer.done
    exact Prod.ext hrun (apply_edged t ha)
  | isPending id | isEnabled id =>
    refine Prod.ext ?_ rfl
    simp only [Access.edged, access]
    rw [@line_map t t.edged _ rfl id]
    cases t.line id <;> rfl
  | summary =>
    refine Prod.ext ?_ rfl
    show Except.ok (Answer.summary t.edged.size t.priorityMask t.now) = _
    rw [size_edged]
    rfl
  | line | lineText => cases ha

end LineTable

/-! ## Two controllers -/

/-- Whether a first handler acknowledges every delivery and does no more, and a second one does
nothing, while their memories stay related. -/
structure Handler.Acknowledges {σ τ : Type} (M : σ → τ → Prop) (h : Handler σ) (h' : Handler τ) :
    Prop where
  acknowledged : ∀ memory d t, (h.deliver memory d t).2 = [.clearPending d.line]
  ignored : ∀ memory d t, (h'.deliver memory d t).2 = []
  related : ∀ {memory memory'}, M memory memory' → ∀ d t t',
    M (h.deliver memory d t).1 (h'.deliver memory' d t').1

namespace Controller

variable {σ τ : Type} {M : σ → τ → Prop} {h : Handler σ} {h' : Handler τ}

/-- Whether two controllers differ only in triggers, which are all edge on the second, and in
memories that are related. -/
structure EdgedBy (M : σ → τ → Prop) (c : Controller σ) (d : Controller τ) : Prop where
  table : d.table = c.table.edged
  thresholds : d.thresholds = c.thresholds
  record : d.record = c.record
  memory : M c.memory d.memory

namespace EdgedBy

variable {c : Controller σ} {d : Controller τ}

theorem edged (c : Controller σ) : EdgedBy Eq c c.edged := ⟨rfl, rfl, rfl, rfl⟩

/-- A command that is blind to triggers keeps the two alike. -/
theorem command (hcd : EdgedBy M c d) (cmd : Command) (hcmd : cmd.isModeBlind = true) :
    EdgedBy M (c.command cmd).2 (d.command cmd.edged).2 where
  table := by
    show d.table.apply cmd.edged = (c.table.apply cmd).edged
    rw [hcd.table, LineTable.apply_edged c.table hcmd]
  thresholds := hcd.thresholds
  record := hcd.record
  memory := hcd.memory

theorem setThreshold (hcd : EdgedBy M c d) (context : Nat) (level : UInt8) :
    Agree (EdgedBy M) (c.setThreshold context level) (d.setThreshold context level) := by
  unfold Controller.setThreshold
  rw [hcd.thresholds]
  cases c.thresholds.set context level with
  | error e => exact ⟨rfl, hcd⟩
  | ok thresholds => exact ⟨rfl, hcd.table, rfl, hcd.record, hcd.memory⟩

theorem reset (hcd : EdgedBy M c d) : EdgedBy M c.reset d.reset where
  table := (hcd.command .reset rfl).table
  thresholds := congrArg Thresholds.reset hcd.thresholds
  record := congrArg ServiceRecord.reset hcd.record
  memory := hcd.memory

theorem tick (hcd : EdgedBy M c d) : EdgedBy M c.tick d.tick where
  table := congrArg LineTable.tick hcd.table
  thresholds := hcd.thresholds
  record := hcd.record
  memory := hcd.memory

theorem winner (hcd : EdgedBy M c d) (threshold : UInt8) :
    d.table.winner threshold = c.table.winner threshold := by
  rw [hcd.table, LineTable.winner_edged]

/-- A service acknowledged on one side is a service of an edge line on the other. The acknowledging
handler gives one command, which withdraws what the service left of the request. -/
theorem serve (hM : Handler.Acknowledges M h h') (hcd : EdgedBy M c d) (delivery : Delivery) :
    EdgedBy M (c.serve h delivery) (d.serve h' delivery) where
  table := by
    show (d.table.serve delivery.line).applyAll (h'.deliver _ _ _).2 =
      ((c.table.serve delivery.line).applyAll (h.deliver _ _ _).2).edged
    rw [hM.ignored, hM.acknowledged, hcd.table, LineTable.applyAll_cons, LineTable.applyAll_nil,
      LineTable.applyAll_nil, LineTable.serve_edged]
  thresholds := hcd.thresholds
  record := by
    show d.record.add _ _ (d.table.waited delivery.line) =
      c.record.add _ _ (c.table.waited delivery.line)
    rw [hcd.record, hcd.table, LineTable.waited_edged]
  memory := hM.related hcd.memory delivery _ _

/-- To loops the two controllers are the same. -/
theorem simulation (hM : Handler.Acknowledges M h h') : Simulation h h' (EdgedBy M) where
  thresholds := fun hcd => hcd.thresholds.symm
  size := by
    intro c d hcd
    rw [hcd.table, LineTable.size_edged]
  count := by
    intro c d hcd line
    rw [hcd.record]
  raise := fun hcd line => hcd.command (.setPending line) rfl
  cycle := by
    intro c d hcd context threshold
    have hwinner := hcd.tick.winner threshold
    unfold cycle
    rw [hwinner]
    cases c.tick.table.winner threshold with
    | none => exact ⟨rfl, hcd.tick⟩
    | some r => exact ⟨rfl, hcd.tick.serve hM (r.on context)⟩

/-- **One operation** is answered alike, and the controllers stay what they are to each other. -/
theorem step (hM : Handler.Acknowledges M h h') (hcd : EdgedBy M c d) {op : Operation}
    (hop : op.isModeBlind = true) : Agree (EdgedBy M) (c.step h op) (d.step h' op.edged) := by
  have S := simulation hM
  have hmap {α : Type} {x : Except Error α × Controller σ} {y : Except Error α × Controller τ}
      (hxy : Agree (EdgedBy M) x y) (f : α → Response) :
      Agree (EdgedBy M) (x.1.map f, x.2) (y.1.map f, y.2) :=
    ⟨congrArg (Except.map f) hxy.1, hxy.2⟩
  cases op with
  | access a =>
    have haccess := LineTable.access_edged c.table hop
    rw [← hcd.table] at haccess
    exact ⟨congrArg (·.1.map Response.answer) haccess.symm, congrArg Prod.snd haccess,
      hcd.thresholds, hcd.record, hcd.memory⟩
  | setThreshold context level => exact hmap (hcd.setThreshold context level) fun _ => .done
  | poll context => exact hmap (S.poll context hcd) .delivery
  | drain context maxPolls => exact hmap (S.drain context maxPolls hcd) .drained
  | awaitService context line maxPolls =>
    exact hmap (S.awaitService context line maxPolls hcd) .number
  | measureLatency context line plan =>
    exact hmap (S.measureLatency context line plan hcd) .report
  | reset => exact ⟨rfl, hcd.reset⟩
  | threshold _ | blocked _ _ | selectNext _ | pendingRequest _ | isRequesting =>
    refine ⟨?_, hcd⟩
    simp only [Operation.edged, Controller.step, Controller.selectNext, pendingRequest,
      isRequesting, hcd.thresholds, hcd.winner]
  | size =>
    refine ⟨?_, hcd⟩
    simp only [Operation.edged, Controller.step, hcd.thresholds, hcd.table, LineTable.size_edged]
  | serviceCount line =>
    refine ⟨?_, hcd⟩
    simp only [Operation.edged, Controller.step, hcd.record]
  | load | store | storeBytes | sampleAll => cases hop

/-- **A run** is answered alike, and the controllers stay what they are to each other. -/
theorem run (hM : Handler.Acknowledges M h h') (hcd : EdgedBy M c d) {ops : List Operation}
    (hops : ∀ op ∈ ops, op.isModeBlind = true) :
    Agree (EdgedBy M) (c.run h ops) (d.run h' (ops.map .edged)) := by
  induction ops generalizing c d with
  | nil => exact ⟨rfl, hcd⟩
  | cons op ops ih =>
    obtain ⟨hanswer, hnext⟩ := step hM hcd (hops op List.mem_cons_self)
    obtain ⟨hanswers, hend⟩ := ih hnext fun op hop => hops op (List.mem_cons_of_mem _ hop)
    refine ⟨?_, hend⟩
    rw [List.map_cons, run_cons, run_cons, hanswer, hanswers]

end EdgedBy

/-- With equal memories as well, the second controller is the first one with its lines edged. -/
theorem EdgedBy.eq_edged {c d : Controller σ} (hcd : EdgedBy Eq c d) : d = c.edged := by
  obtain ⟨table, thresholds, record, memory⟩ := d
  obtain ⟨rfl, rfl, rfl, rfl⟩ := hcd
  rfl

end Controller

/-! ## The handlers -/

namespace Handler

variable {σ τ : Type}

/-- The acknowledging handler withdraws the request and does nothing else. -/
theorem acknowledges_passive : Acknowledges Eq (acknowledging (passive : Handler σ)) passive where
  acknowledged := fun _ _ _ => rfl
  ignored := fun _ _ _ => rfl
  related := fun hmemory _ _ _ => hmemory

/-- Whether two memories are related, and the logs beside them have the same deliveries. -/
def SameLogs (M : σ → τ → Prop) (memory : σ × List Call) (memory' : τ × List Call) : Prop :=
  M memory.1 memory'.1 ∧ memory.2.map Call.delivery = memory'.2.map Call.delivery

/-- To log the calls on both sides takes nothing from the likeness. -/
theorem Acknowledges.logged {M : σ → τ → Prop} {h : Handler σ} {h' : Handler τ}
    (hM : Acknowledges M h h') : Acknowledges (SameLogs M) h.logged h'.logged where
  acknowledged := fun memory => hM.acknowledged memory.1
  ignored := fun memory => hM.ignored memory.1
  related := by
    intro memory memory' hmemory d t t'
    refine ⟨hM.related hmemory.1 d t t', ?_⟩
    show (memory.2 ++ [_]).map Call.delivery = (memory'.2 ++ [_]).map Call.delivery
    rw [List.map_append, List.map_append, hmemory.2]
    rfl

end Handler

namespace Controller

variable {σ : Type}

/-- **Acknowledging makes level lines behave like edge lines.** Let one controller have the handler
that acknowledges every delivery, and another one, the same but with all lines edge triggered, the
handler that does nothing. As long as inputs are not sampled and attributes neither written as bytes
nor asked for, and lines are configured as edge lines on the second, all operations are answered
alike, the handlers receive the same deliveries, and after each operation the controllers are still
the same but for the triggers, with the same record of services. -/
theorem acknowledged_lines_are_edge_lines (c : Controller σ) (ops : List Operation)
    (hops : ∀ op ∈ ops, op.isModeBlind = true) :
    let h : Handler σ := .acknowledging .passive
    (c.run h ops).1 = (c.edged.run .passive (ops.map .edged)).1 ∧
      c.deliveries h ops = c.edged.deliveries .passive (ops.map .edged) ∧
      ∀ first, first <+: ops →
        (c.edged.run .passive (first.map .edged)).2 = (c.run h first).2.edged := by
  intro h
  have hacknowledges : Handler.Acknowledges Eq h .passive := Handler.acknowledges_passive
  have hlogs : EdgedBy (Handler.SameLogs Eq) c.withLog c.edged.withLog :=
    ⟨rfl, rfl, rfl, rfl, rfl⟩
  refine ⟨?_, ?_, ?_⟩
  · exact (EdgedBy.run hacknowledges (EdgedBy.edged c) hops).1
  · exact (EdgedBy.run hacknowledges.logged hlogs hops).2.memory.2
  · intro first hfirst
    have hblind : ∀ op ∈ first, op.isModeBlind = true := fun op hop => hops op (hfirst.subset hop)
    exact (EdgedBy.run hacknowledges (EdgedBy.edged c) hblind).2.eq_edged

/-- A level line and an edge line, both pending, change over; requests are serviced one by one, by
draining, waiting and measuring, one wait is in vain, and a reset comes between. -/
theorem acknowledged_lines_are_edge_lines_of_mixed :
    let h : Handler Unit := .acknowledging .passive
    let configured : List Operation :=
      [.access (.command (.configure 0 3 ⟨.level, .positive⟩)), .access (.command (.enable 0)),
        .access (.command (.configure 1 5 ⟨.edge, .negative⟩)), .access (.command (.enable 1)),
        .access (.command (.setPending 0)), .access (.command (.setPending 1)),
        .access (.command (.setPending 2))]
    let c := ((ofGeometry { lines := 3, contexts := 2, priorityBits := 4 } ()).run h configured).2
    let ops : List Operation :=
      [.access (.command (.configure 1 2 ⟨.level, .negative⟩)),
        .access (.command (.configure 0 7 ⟨.edge, .positive⟩)), .setThreshold 1 4, .poll 1,
        .drain 0 5, .access (.command (.setPriority 0 1)), .access (.command (.setPending 1)),
        .access (.command (.clearPending 1)), .access (.command (.setPending 0)),
        .awaitService 0 0 3, .awaitService 0 2 2, .measureLatency 1 0 ⟨3, 4⟩, .reset,
        .access (.command (.enable 1)), .measureLatency 0 1 ⟨2, 1⟩,
        .access (.command (.disable 1)), .access (.command (.setPending 1)), .drain 1 4,
        .access (.isPending 1), .serviceCount 1]
    (∀ op ∈ ops, op.isModeBlind = true) ∧ (c.deliveries h ops).length = 8 ∧
      (c.run h ops).1 = (c.edged.run .passive (ops.map .edged)).1 ∧
      c.deliveries h ops = c.edged.deliveries .passive (ops.map .edged) ∧
      ∀ first, first <+: ops →
        (c.edged.run .passive (first.map .edged)).2 = (c.run h first).2.edged := by
  intro h configured c ops
  have hops : ∀ op ∈ ops, op.isModeBlind = true := by decide
  exact ⟨hops, by decide +kernel, acknowledged_lines_are_edge_lines c ops hops⟩

end Controller

end Irq
