import Irq.Proofs.Simulation

/-!
# Irq.Proofs.Checks

Checks in the middle of things. A dispatch cycle names a context and two times a line, and a loop of
cycles names its context again in each of them; so there are many places where an operation could
find out too late that something is missing. Here every one of these checks is made, and an
operation stops where one fails, keeping what it has done so far. None does: what arbitration
chooses exists, and nothing that a handler does takes a line or a context away. So the operations
come to the same with all these checks as with the first of them alone (`checkedPoll_eq`,
`checkedDrain_eq`, `checkedAwait_eq`).
-/

namespace Irq.Controller

variable {σ : Type}

/-- A dispatch cycle that checks its context twice, and the line that it services when it looks up
its priority and when it claims it. -/
def checkedPoll (h : Handler σ) (c : Controller σ) (context : Nat) :
    Except Error (Option Delivery) × Controller σ :=
  match c.thresholds.check context with
  | .error e => (.error e, c)
  | .ok _ =>
    match c.tick.selectNext context with
    | .error e => (.error e, c.tick)
    | .ok none => (.ok none, c.tick)
    | .ok (some line) =>
      match c.tick.table.line line with
      | .error e => (.error e, c.tick)
      | .ok l =>
        match c.tick.table.modify line (Line.serve c.tick.table.now) with
        | .error e => (.error e, c.tick)
        | .ok claimed =>
          let d : Delivery := ⟨line, l.priority, context⟩
          let (memory, table) := h.handle c.memory d claimed
          let record := c.record.add line l.priority (l.waited c.tick.table.now)
          (.ok (some d), { c with table, memory, record })

/-- Draining, poll by poll. -/
def checkedDrain (h : Handler σ) (context : Nat) :
    Nat → List Delivery → Controller σ → Except Error DrainOutcome × Controller σ
  | 0, serviced, c => ((c.selectNext context).map fun next => ⟨serviced, next.isNone⟩, c)
  | budget + 1, serviced, c =>
    match c.checkedPoll h context with
    | (.error e, c) => (.error e, c)
    | (.ok none, c) => (.ok ⟨serviced, true⟩, c)
    | (.ok (some d), c) => checkedDrain h context budget (serviced ++ [d]) c

/-- Waiting for more services of a line than there have been before, poll by poll. -/
def checkedWait (h : Handler σ) (context line maxPolls before : Nat) :
    Nat → Nat → Controller σ → Except Error Nat × Controller σ
  | 0, _, c => (.error (.timeout line maxPolls), c)
  | budget + 1, polls, c =>
    match c.checkedPoll h context with
    | (.error e, c) => (.error e, c)
    | (.ok _, c) =>
      if before < c.record.count line then (.ok (polls + 1), c)
      else checkedWait h context line maxPolls before budget (polls + 1) c

/-- Waiting for one more service of a line, poll by poll. -/
def checkedAwait (h : Handler σ) (c : Controller σ) (context line maxPolls : Nat) :
    Except Error Nat × Controller σ :=
  match c.table.line line with
  | .error e => (.error e, c)
  | .ok _ =>
    match c.thresholds.check context with
    | .error e => (.error e, c)
    | .ok _ => checkedWait h context line maxPolls (c.record.count line) maxPolls 0 c

/-! ## One cycle -/

/-- The check of a context and the look at its threshold succeed or fail together. -/
theorem check_cases (g : Thresholds) (context : Nat) :
    (∃ threshold, g.check context = .ok () ∧ g.get context = .ok threshold) ∨
      ∃ e, g.check context = .error e ∧ g.get context = .error e := by
  by_cases hlt : context < g.levels.size
  · exact .inl ⟨g.levels[context], Thresholds.check_eq_ok_iff.mpr hlt,
      Thresholds.get_eq_ok_iff.mpr (Array.getElem?_eq_getElem hlt)⟩
  · exact .inr ⟨.invalidContext context g.size, if_neg hlt,
      Thresholds.get_eq_error_iff.mpr ⟨Nat.not_lt.mp hlt, rfl⟩⟩

/-- **What arbitration chooses is there**: a poll finds it at every check. -/
theorem checkedPoll_eq (h : Handler σ) (c : Controller σ) (context : Nat) :
    c.checkedPoll h context = c.poll h context := by
  unfold checkedPoll poll
  rcases check_cases c.thresholds context with ⟨threshold, hcheck, hget⟩ | ⟨e, hcheck, hget⟩
  · have hselect : c.tick.selectNext context =
        .ok ((c.tick.table.winner threshold).map Request.line) := by
      rw [selectNext, show c.tick.thresholds = c.thresholds from rfl, hget]
      rfl
    rw [hcheck, hget, hselect]
    cases hwinner : c.tick.table.winner threshold with
    | none => simp only [cycle, hwinner, Option.map_none]
    | some r =>
      obtain ⟨l, hl, -, hr⟩ :=
        LineTable.request?_eq_some_iff.mp (LineTable.winnerBelow_sound hwinner).2
      have hlt : r.line < c.tick.table.size := (Array.getElem?_eq_some_iff.mp hl).1
      have hpriority : l.priority = r.priority := (congrArg Request.priority hr).symm
      have hwaited : c.tick.table.waited r.line = l.waited c.tick.table.now := by
        rw [LineTable.waited, hl, Option.bind_some]
      simp only [cycle, hwinner, Option.map_some, LineTable.line_eq_ok_iff.mpr hl,
        LineTable.modify_of_lt _ hlt, hpriority, ← hwaited]
      rfl
  · rw [hcheck, hget]

/-- A poll of a context that exists is a cycle with its threshold. -/
theorem poll_eq_cycle (h : Handler σ) {c : Controller σ} {context : Nat} {threshold : UInt8}
    (hget : c.thresholds.get context = .ok threshold) :
    c.poll h context =
      (.ok (cycle h context threshold c).1, (cycle h context threshold c).2) := by
  rw [poll, hget]

/-- After a cycle that services nothing there is nothing to service. -/
theorem winner_of_cycle_eq_none {h : Handler σ} {c : Controller σ} {context : Nat}
    {threshold : UInt8} (hnone : (cycle h context threshold c).1 = none) :
    (cycle h context threshold c).2.table.winner threshold = none := by
  rw [fst_cycle, Option.map_eq_none_iff] at hnone
  rw [cycle_of_none h context hnone]
  exact (LineTable.winner_tick c.table threshold).trans hnone

/-! ## Cycles in a row -/

section
variable {h : Handler σ} {c : Controller σ} {context : Nat} {threshold : UInt8}

/-- **No poll of a drain fails** on a context that exists. -/
theorem checkedDrain_of_get (hget : c.thresholds.get context = .ok threshold) (budget : Nat)
    (serviced : List Delivery) :
    checkedDrain h context budget serviced c =
      let (outcomes, c') :=
        cyclesUntil h context threshold (fun outcome _ => outcome.isNone) budget [] c
      (.ok ⟨serviced ++ outcomes.filterMap id, (c'.table.winner threshold).isNone⟩, c') := by
  induction budget generalizing serviced c with
  | zero =>
    rw [checkedDrain, selectNext, hget]
    simp [cyclesUntil, Except.map]
  | succ budget ih =>
    have hnone := @winner_of_cycle_eq_none σ h c context threshold
    have hget' := get_cycle h hget
    rw [checkedDrain, checkedPoll_eq, poll_eq_cycle h hget, cyclesUntil_succ]
    generalize cycle h context threshold c = x at hnone hget'
    obtain ⟨outcome, c'⟩ := x
    cases outcome with
    | none => simp [hnone rfl]
    | some d =>
      have hrest := ih hget' (serviced ++ [d])
      simp [hrest, cyclesUntil_earlier h context threshold _ budget [some d] c']

/-- **No poll of a wait fails** on a context that exists. -/
theorem checkedWait_of_get (hget : c.thresholds.get context = .ok threshold)
    (line maxPolls before budget polls : Nat) (hbefore : c.record.count line ≤ before) :
    checkedWait h context line maxPolls before budget polls c =
      let (outcomes, c') :=
        cyclesUntil h context threshold (fun _ c => before < c.record.count line) budget [] c
      (if before < c'.record.count line then .ok (polls + outcomes.length)
        else .error (.timeout line maxPolls), c') := by
  induction budget generalizing polls c with
  | zero => simp [checkedWait, cyclesUntil, Nat.not_lt.mpr hbefore]
  | succ budget ih =>
    have hget' := get_cycle h hget
    rw [checkedWait, checkedPoll_eq, poll_eq_cycle h hget, cyclesUntil_succ]
    generalize cycle h context threshold c = x at hget'
    obtain ⟨outcome, c'⟩ := x
    by_cases hserved : before < c'.record.count line
    · simp [hserved]
    · have hrest := ih hget' (polls + 1) (Nat.not_lt.mp hserved)
      simp [hserved, hrest, cyclesUntil_earlier h context threshold _ budget [outcome] c',
        Nat.add_assoc, Nat.add_comm 1]

end

/-- **A drain fails before it begins or not at all.** -/
theorem checkedDrain_eq (h : Handler σ) (c : Controller σ) (context maxPolls : Nat) :
    checkedDrain h context maxPolls [] c = c.drain h context maxPolls := by
  rcases check_cases c.thresholds context with ⟨threshold, -, hget⟩ | ⟨e, -, hget⟩
  · rw [checkedDrain_of_get hget, drain, hget]
    rfl
  · rw [drain, hget]
    cases maxPolls with
    | zero =>
      rw [checkedDrain, selectNext, hget]
      rfl
    | succ budget => rw [checkedDrain, checkedPoll_eq, poll, hget]

/-- **Waiting fails before it begins, or for want of time.** -/
theorem checkedAwait_eq (h : Handler σ) (c : Controller σ) (context line maxPolls : Nat) :
    c.checkedAwait h context line maxPolls = c.awaitService h context line maxPolls := by
  unfold checkedAwait awaitService
  cases c.table.line line with
  | error e => rfl
  | ok l =>
    rcases check_cases c.thresholds context with ⟨threshold, hcheck, hget⟩ | ⟨e, hcheck, hget⟩
    · simp only [hcheck, hget, checkedWait_of_get hget line maxPolls _ maxPolls 0 (Nat.le_refl _)]
      split <;> simp_all
    · rw [hcheck, hget]

end Irq.Controller
