import Irq.Proofs.Intact
import Irq.Proofs.Timing

/-!
# Irq.Proofs.Restart

A reset starts afresh. Nothing of what happened before survives it but the priorities and attributes
of the lines, and the clock, which goes on. `s.reset` is therefore a controller that was newly made
and configured, only later by the clock of `s`; and being later is all that ever tells the two
apart, since a controller compares readings of its clock and never looks at one alone.
-/

namespace Irq

/-- The line as it would be with all that was stamped on it stamped later. -/
def Line.later (k : Nat) (l : Line) : Line := { l with since := l.since.map (· + k) }

/-- The table as it would be at a later clock. -/
def LineTable.later (k : Nat) (t : LineTable) : LineTable :=
  { t with lines := t.lines.map (Line.later k), now := t.now + k }

/-- The controller as it would be at a later clock. -/
def Controller.later {σ : Type} (k : Nat) (c : Controller σ) : Controller σ :=
  { c with table := c.table.later k }

/-- The commands that configure lines as those of a table are. -/
def LineTable.configuration (t : LineTable) : List Command :=
  t.lines.toList.zipIdx.map fun (l, id) => .configure id l.priority l.attributes

/-! ## Lines at a later clock -/

namespace Line

/-- A wait is the same at a later clock. -/
@[simp] theorem waited_later (k now : Nat) (l : Line) :
    (l.later k).waited (now + k) = l.waited now := by
  unfold waited
  show (l.since.map (· + k)).map _ = _
  simp only [Option.map_map, Function.comp_def, Nat.add_sub_add_right]

end Line

/-! ## Tables at a later clock -/

namespace LineTable

theorem getElem?_later (k : Nat) (t : LineTable) (i : Nat) :
    (t.later k).lines[i]? = t.lines[i]?.map (Line.later k) := Array.getElem?_map

@[simp] theorem untimed_later (k : Nat) (t : LineTable) : (t.later k).untimed = t.untimed := by
  refine ext_lines rfl rfl fun i => ?_
  rw [getElem?_untimed, getElem?_untimed, getElem?_later, Option.map_map]
  rfl

/-- How long a line has waited does not depend on when that was. -/
@[simp] theorem waited_later (k : Nat) (t : LineTable) (id : Nat) :
    (t.later k).waited id = t.waited id := by
  unfold waited
  rw [getElem?_later, Option.bind_map]
  congr 1
  funext l
  exact Line.waited_later k t.now l

/-- What happens at a later clock is what happens, later. -/
theorem later_happen (k : Nat) (t : LineTable) (e : Event) :
    (t.later k).happen e = (t.happen e).later k := by
  have hmatched : (t.later k).MatchedBy id (Option.map (· + k)) t := by
    refine ⟨rfl, rfl, rfl, fun i => ?_⟩
    rw [getElem?_later]
    exact Option.map_id'
  refine ext_lines ?_ ?_ fun i => ?_
  · show ((t.later k).happen e).priorityMask = (t.happen e).priorityMask
    rw [priorityMask_happen, priorityMask_happen]
    rfl
  · show ((t.later k).happen e).now = (t.happen e).now + k
    rw [now_happen, now_happen]
    exact Nat.add_right_comm ..
  · rw [getElem?_later]
    exact Option.map_id'.symm.trans (hmatched.happen e i)

/-- Commands do the same later. -/
theorem later_applyAll (k : Nat) (t : LineTable) (cmds : List Command) :
    (t.later k).applyAll cmds = (t.applyAll cmds).later k := by
  induction cmds generalizing t with
  | nil => rfl
  | cons cmd cmds ih =>
    have hcmd : (t.later k).apply cmd = (t.apply cmd).later k := later_happen k t (.command cmd)
    rw [applyAll_cons, applyAll_cons, hcmd, ih]

end LineTable

/-! ## Controllers at a later clock -/

/-- A handler that ignores the time does the same later. -/
theorem Handler.IgnoresTime.later {σ : Type} {h : Handler σ} (hh : h.IgnoresTime) (k : Nat)
    (memory : σ) (d : Delivery) (t : LineTable) :
    h.handle memory d (t.later k) =
      ((h.handle memory d t).1, (h.handle memory d t).2.later k) := by
  have hsame := hh memory d (t.later k) t (LineTable.untimed_later k t)
  simp only [Handler.handle, hsame, LineTable.later_applyAll]

namespace Controller

variable {σ : Type}

/-- **A later clock is never noticed**, if the handler does not look at it. -/
theorem likeness_later {h : Handler σ} (hh : h.IgnoresTime) (k : Nat) :
    Likeness h h fun c d => c = d.later k where
  table := by
    rintro _ d rfl
    exact LineTable.untimed_later k d.table
  thresholds := by
    rintro _ d rfl
    rfl
  count := by
    rintro _ d rfl line
    rfl
  command := by
    rintro _ d rfl cmd
    have htable := LineTable.later_happen k d.table (.command cmd)
    exact congrArg (fun table => { d with table }) htable
  threshold := by
    rintro _ d rfl context level
    have hthresholds : (d.later k).thresholds = d.thresholds := rfl
    unfold setThreshold
    rw [hthresholds]
    cases d.thresholds.set context level <;> rfl
  reset := by
    rintro _ d rfl
    have htable := LineTable.later_happen k d.table (.command .reset)
    exact congrArg (fun table => { d.reset with table }) htable
  tick := by
    rintro _ d rfl
    have htable := LineTable.later_happen k d.table .tick
    exact congrArg (fun table => { d with table }) htable
  serve := by
    rintro _ d rfl delivery
    have htable := LineTable.later_happen k d.table (.delivery delivery)
    change (d.table.later k).serve delivery.line = (d.table.serve delivery.line).later k at htable
    have hwaited := LineTable.waited_later k d.table delivery.line
    simp only [Controller.serve, Controller.later, htable, hwaited, hh.later]

/-! ## What a reset leaves -/

/-- Running commands applies them to the table. -/
theorem run_commands (h : Handler σ) (c : Controller σ) (cmds : List Command) :
    (c.run h (cmds.map fun cmd => .access (.command cmd))).2 =
      { c with table := c.table.applyAll cmds } := by
  induction cmds generalizing c with
  | nil => rfl
  | cons cmd cmds ih => exact ih _

end Controller

/-- The elements of a list are numbered apart: one at most has a given number. Those behind it have
greater numbers. -/
theorem filter_zipIdx {α : Type} (xs : List α) (k i : Nat) :
    ((xs.zipIdx k).filter fun x => x.2 == k + i) = (xs[i]?.map fun x => (x, k + i)).toList := by
  induction xs generalizing k i with
  | nil => rfl
  | cons x xs ih =>
    rw [List.zipIdx_cons, List.filter_cons]
    cases i with
    | zero =>
      have hrest : ((xs.zipIdx (k + 1)).filter fun x => x.2 == k + 0) = [] := by
        rw [List.filter_eq_nil_iff]
        intro y hy
        have hle := List.le_snd_of_mem_zipIdx hy
        simp only [beq_iff_eq]
        omega
      rw [if_pos (by simp), hrest]
      rfl
    | succ i =>
      rw [if_neg (by simp), List.getElem?_cons_succ, Nat.add_comm i 1, ← Nat.add_assoc]
      exact ih (k + 1) i

namespace LineTable

/-- Of a configuration, one command concerns each line: that with the values of the line. -/
theorem filter_configuration (t : LineTable) (i : Nat) :
    t.configuration.filter (·.concerns i) =
      (t.lines[i]?.map fun l => Command.configure i l.priority l.attributes).toList := by
  have hone := filter_zipIdx t.lines.toList 0 i
  rw [Nat.zero_add, Array.getElem?_toList] at hone
  unfold configuration
  rw [List.filter_map]
  show List.map _ (t.lines.toList.zipIdx.filter fun x => x.2 == i) = _
  rw [hone]
  cases t.lines[i]? <;> rfl

/-- **What a reset leaves of a table** is a new table, configured as that was, at a later clock. -/
theorem apply_reset_eq_later {g : Geometry} {begun : Nat} {t : LineTable} (ht : t.Intact g begun) :
    t.apply .reset =
      ((ofSize g.lines g.priorityBits).applyAll t.configuration).later t.now := by
  refine ext_lines ?_ ?_ fun i => ?_
  · show _ = ((ofSize g.lines g.priorityBits).applyAll t.configuration).priorityMask
    rw [priorityMask_apply, priorityMask_applyAll, ht.mask]
    rfl
  · show _ = ((ofSize g.lines g.priorityBits).applyAll t.configuration).now + t.now
    rw [now_apply, now_applyAll]
    exact (Nat.zero_add _).symm
  · rw [getElem?_apply, getElem?_later, getElem?_applyAll, filter_configuration]
    have hnew : (ofSize g.lines g.priorityBits).lines[i]? = if i < g.lines then some {} else none :=
      Array.getElem?_replicate
    rw [hnew, ← ht.size, size]
    cases hl : t.lines[i]? with
    | none =>
      have hle : t.lines.size ≤ i := Array.getElem?_eq_none_iff.mp hl
      rw [if_neg (Nat.not_lt.mpr hle)]
      rfl
    | some l =>
      have hlt : i < t.lines.size := (Array.getElem?_eq_some_iff.mp hl).1
      have hmasked : l.priority &&& maskOfBits g.priorityBits = l.priority :=
        ht.mask ▸ (ht.sound i l hl).masked
      rw [if_pos hlt]
      show some l.clear = some { ({} : Line) with
        priority := l.priority &&& maskOfBits g.priorityBits, attributes := l.attributes }
      rw [hmasked]
      rfl

end LineTable

namespace Controller

variable {σ : Type}

/-- **What a reset leaves**, after any run: a new controller, configured as it was, at a later
clock. -/
theorem reset_eq_later (g : Geometry) (memory : σ) (h : Handler σ) (ops : List Operation) :
    let s := ((ofGeometry g memory).run h ops).2
    let fresh := ofGeometry g s.memory
    s.reset =
      { fresh with table := fresh.table.applyAll s.table.configuration }.later s.table.now := by
  intro s fresh
  have hcourse := course_run h (ofGeometry g memory) ops
  have hintact : s.table.Intact g (polls ((ofGeometry g memory).history h ops)) := by
    rw [hcourse.table]
    exact intact_replay g memory h ops (List.prefix_refl _)
  have htable : s.table.apply .reset =
      (fresh.table.applyAll s.table.configuration).later s.table.now :=
    LineTable.apply_reset_eq_later hintact
  have hthresholds : s.thresholds.reset = .ofSize g.contexts := by
    rw [Thresholds.reset, hcourse.sizes.2]
    exact congrArg Thresholds.ofSize (Thresholds.size_ofSize g.contexts)
  have hrecord : s.record.reset = .ofSize g.lines :=
    congrArg ServiceRecord.ofSize (size_counts_run g memory h ops)
  unfold reset
  rw [htable, hthresholds, hrecord]
  rfl

/-- **A reset starts afresh.** Let `s` be what any run has made of a controller, with a handler that
does not look at clock and stamps, as the passive one and its acknowledging form do not. Reset it,
and beside it make a new controller of the same shape and configure each line as it is in `s`. Then
every run answers the same on both, apart from what an answer shows of clock and stamps; the handler
receives the same deliveries; and the two controllers are the same afterwards, thresholds, record
and waits included, but that clock and stamps of the first are later by the clock of `s`. -/
theorem reset_starts_afresh (g : Geometry) (memory : σ) (h : Handler σ) (hh : h.IgnoresTime)
    (ops later : List Operation) :
    let s := ((ofGeometry g memory).run h ops).2
    let configuration := s.table.configuration.map fun cmd => Operation.access (.command cmd)
    let fresh := ((ofGeometry g s.memory).run h configuration).2
    (s.reset.run h later).1.map (Except.map Response.untimed) =
        (fresh.run h later).1.map (Except.map Response.untimed) ∧
      s.reset.deliveries h later = fresh.deliveries h later ∧
      (s.reset.run h later).2 = (fresh.run h later).2.later s.table.now := by
  intro s configuration fresh
  have L := likeness_later hh s.table.now
  have hreset : s.reset = fresh.later s.table.now := by
    have hfresh : fresh = { ofGeometry g s.memory with
        table := (ofGeometry g s.memory).table.applyAll s.table.configuration } :=
      run_commands h (ofGeometry g s.memory) s.table.configuration
    rw [hfresh]
    exact reset_eq_later g memory h ops
  obtain ⟨hanswers, hend⟩ := L.run hreset later
  exact ⟨hanswers, L.deliveries hreset later, hend⟩

/-- Before the reset a line was serviced and raised once more, the other one's input was asserted,
and a threshold was set; none of this shows afterwards. -/
theorem reset_starts_afresh_of_busy :
    let g : Geometry := { lines := 2, contexts := 1, priorityBits := 4 }
    let h : Handler Unit := .acknowledging .passive
    let ops : List Operation :=
      [.access (.command (.configure 0 19 ⟨.level, .positive⟩)), .access (.command (.enable 0)),
        .access (.command (.setAttributes 1 6)), .sampleAll [true, true], .poll 0, .poll 0,
        .access (.command (.setPending 0)), .setThreshold 0 3]
    let later : List Operation :=
      [.access (.command (.enable 0)), .access (.command (.enable 1)), .sampleAll [true, true],
        .poll 0, .measureLatency 0 0 ⟨1, 5⟩]
    let s := ((ofGeometry g ()).run h ops).2
    let configuration := s.table.configuration.map fun cmd => Operation.access (.command cmd)
    let fresh := ((ofGeometry g s.memory).run h configuration).2
    h.IgnoresTime ∧ s.table.now = 2 ∧
      s.table.configuration =
        [.configure 0 3 ⟨.level, .positive⟩, .configure 1 0 ⟨.edge, .positive⟩] ∧
      fresh.deliveries h later = [⟨1, 0, 0⟩, ⟨0, 3, 0⟩] ∧
      s.reset.deliveries h later = fresh.deliveries h later ∧
      (s.reset.run h later).2 = (fresh.run h later).2.later s.table.now := by
  intro g h ops later
  have hh : h.IgnoresTime := Handler.ignoresTime_passive.acknowledging
  have hafresh := reset_starts_afresh g () h hh ops later
  exact ⟨hh, by decide +kernel, by decide +kernel, by decide +kernel, hafresh.2⟩

end Controller

end Irq
