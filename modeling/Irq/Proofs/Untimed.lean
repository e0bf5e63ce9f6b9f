import Irq.Proofs.Stamps

/-!
# Irq.Proofs.Untimed

What is left of a controller when clock, stamps and waits are forgotten. Nothing that a client can
ask for depends on what is forgotten, apart from the clock and the stamps themselves: arbitration,
registers and answers are the same of a table and of what is left of it. And what an event leaves of
a table is settled by what was left of it before the event (`untimed_happen_congr`).
-/

namespace Irq

/-- The line without its stamp. -/
def Line.untimed (l : Line) : Line := { l with since := none }

/-- The table without stamps, its clock at zero. -/
def LineTable.untimed (t : LineTable) : LineTable :=
  { t with lines := t.lines.map Line.untimed, now := 0 }

/-- The record without the summary of waits. -/
def ServiceRecord.untimed (r : ServiceRecord) : ServiceRecord := { r with waits := {} }

/-- The controller without clock, stamps and waits. -/
def Controller.untimed {σ : Type} (c : Controller σ) : Controller σ :=
  { c with table := c.table.untimed, record := c.record.untimed }

/-- The answer without what it shows of clock and stamps. -/
def Answer.untimed : Answer → Answer
  | .line state => .line state.untimed
  | .lineText state => .lineText state.untimed
  | .summary size priorityMask _ => .summary size priorityMask 0
  | .done => .done
  | .flag value => .flag value

/-- The answer without what it shows of clock and stamps. Only accesses to the line table show
any of it. -/
def Response.untimed : Response → Response
  | .answer a => .answer a.untimed
  | .done => .done
  | .flag value => .flag value
  | .number value => .number value
  | .selected line => .selected line
  | .delivery d => .delivery d
  | .drained outcome => .drained outcome
  | .report r => .report r
  | .size lines contexts => .size lines contexts

/-- No register shows a time. -/
@[simp] theorem Registers.read_untimed (l : Line) (bank : Bank) :
    bank.read l.untimed = bank.read l := by
  cases bank <;> rfl

/-! ## Tables -/

namespace LineTable

theorem getElem?_untimed (t : LineTable) (i : Nat) :
    t.untimed.lines[i]? = t.lines[i]?.map Line.untimed := Array.getElem?_map

@[simp] theorem size_untimed (t : LineTable) : t.untimed.size = t.size := Array.size_map

/-- Tables are the same if mask, clock and every line are. -/
theorem ext_lines {t t' : LineTable} (hmask : t.priorityMask = t'.priorityMask)
    (hnow : t.now = t'.now) (hlines : ∀ i : Nat, t.lines[i]? = t'.lines[i]?) : t = t' := by
  obtain ⟨lines, mask, now⟩ := t
  obtain ⟨lines', mask', now'⟩ := t'
  cases hmask
  cases hnow
  congr 1
  exact Array.ext_getElem? hlines

/-- What an event leaves of a table does not depend on what was not left of it before. -/
theorem untimed_happen_congr {t t' : LineTable} (h : t.untimed = t'.untimed) (e : Event) :
    (t.happen e).untimed = (t'.happen e).untimed := by
  have hmask : t.untimed.priorityMask = t'.untimed.priorityMask := congrArg _ h
  have hlines (i : Nat) : t.lines[i]?.map Line.untimed = t'.lines[i]?.map Line.untimed := by
    rw [← getElem?_untimed, h, getElem?_untimed]
  have hmatched : t.MatchedBy (fun _ => none) (fun _ => none) t' := ⟨hmask, rfl, rfl, hlines⟩
  refine ext_lines ?_ rfl fun i => ?_
  · show (t.happen e).priorityMask = (t'.happen e).priorityMask
    rw [priorityMask_happen, priorityMask_happen]
    exact hmask
  · rw [getElem?_untimed, getElem?_untimed]
    exact hmatched.happen e i

/-- Commands keep tables the same but for times. -/
theorem untimed_applyAll_congr {t t' : LineTable} (h : t.untimed = t'.untimed)
    (cmds : List Command) : (t.applyAll cmds).untimed = (t'.applyAll cmds).untimed := by
  induction cmds generalizing t t' with
  | nil => exact h
  | cons cmd cmds ih => exact ih (untimed_happen_congr h (.command cmd))

/-! ## Questions -/

/-- Arbitration does not look at stamps. -/
@[simp] theorem winner_untimed (t : LineTable) (threshold : UInt8) :
    t.untimed.winner threshold = t.winner threshold :=
  @winner_map t t.untimed _ rfl (fun _ => rfl) (fun _ => rfl) threshold

theorem line_untimed (t : LineTable) (id : Nat) :
    t.untimed.line id = (t.line id).map Line.untimed := line_map rfl id

/-- Whether a command succeeds depends on the line it names and the size of the table alone. -/
theorem map_run_congr {α : Type} {t t' : LineTable} (hsize : t.size = t'.size)
    {cmd cmd' : Command} (hline : cmd.line? = cmd'.line?) (a : α) :
    (t.run cmd).map (fun _ => a) = (t'.run cmd').map fun _ => a := by
  unfold run
  rw [hline]
  cases cmd'.line? with
  | none => rfl
  | some id =>
    simp only [modify, noLine, hsize]
    split <;> rfl

/-- Accesses see of a table only what is left of it, and clock and stamps. -/
theorem untimed_access (t : LineTable) (a : Access) :
    (t.access a).1.map Answer.untimed = (t.untimed.access a).1.map Answer.untimed := by
  have hline {f : Line → Answer} (hf : ∀ l : Line, (f l.untimed).untimed = (f l).untimed)
      (id : Nat) : ((t.line id).map f).map Answer.untimed =
        ((t.untimed.line id).map f).map Answer.untimed := by
    rw [line_untimed]
    cases t.line id with
    | error e => rfl
    | ok l => exact congrArg Except.ok (hf l).symm
  cases a with
  | command cmd =>
    have hrun := @map_run_congr _ t t.untimed (size_untimed t).symm cmd cmd rfl Answer.done
    exact congrArg (Except.map Answer.untimed) hrun
  | isPending id => exact hline (fun _ => rfl) id
  | isEnabled id => exact hline (fun _ => rfl) id
  | line id => exact hline (fun _ => rfl) id
  | lineText id => exact hline (fun _ => rfl) id
  | summary =>
    show Except.ok (Answer.summary t.size t.priorityMask 0) =
      .ok (.summary t.untimed.size t.priorityMask 0)
    rw [size_untimed]

end LineTable

end Irq
