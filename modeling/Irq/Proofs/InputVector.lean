import Irq.Proofs.Restart

/-!
# Irq.Proofs.InputVector

Sampling all inputs at once. A vector of signals is a list of samples, one for each line, of which
those beyond the last line have no effect. No two of them are of the same line, so that each line
gets its own sample and no other, in whatever order they are taken (`getElem?_of_perm`). A line
remembers the signal last sampled: to sample the same signal once more changes nothing, and does not
bring back a request that was withdrawn from an edge line, as it does on an asserted level line.
-/

namespace Irq

/-! ## The same signal once more -/

namespace Line

/-- On an edge line a signal that is held goes unnoticed. -/
theorem sample_of_held {l : Line} {signal : Bool} (hheld : l.input = signal)
    (hedge : l.attributes.trigger = .edge) (now : Nat) : l.sample now signal = l := by
  subst hheld
  simp [sample, hedge]

/-- **A second sample of the same signal changes nothing**, at any clock. -/
theorem sample_sample (now later : Nat) (signal : Bool) (l : Line) :
    (l.sample now signal).sample later signal = l.sample now signal := by
  cases htrigger : l.attributes.trigger with
  | edge =>
    have hedge : (l.sample now signal).attributes.trigger = .edge := by
      rw [attributes_sample, htrigger]
    exact sample_of_held (input_sample now signal l) hedge later
  | level =>
    cases hasserted : l.attributes.polarity.asserts signal with
    | true => cases hp : l.pending <;> simp [sample, htrigger, hasserted, raise, hp]
    | false => simp [sample, htrigger, hasserted, lower]

end Line

/-! ## Each line gets its own sample -/

namespace LineTable

variable {t : LineTable} {signals : List Bool}

/-- A sample of one input changes its line and no other. -/
theorem getElem?_sample (t : LineTable) (i : Nat) (signal : Bool) :
    (t.apply (.sample i signal)).lines[i]? = t.lines[i]?.map (Line.sample t.now signal) := by
  simp [getElem?_apply, Command.concerns, Command.line?, effect]

theorem getElem?_clearPending (t : LineTable) (i : Nat) :
    (t.apply (.clearPending i)).lines[i]? = t.lines[i]?.map Line.lower := by
  simp [getElem?_apply, Command.concerns, Command.line?, effect]

/-- After a withdrawal the line is not pending. -/
theorem isPending_clearPending (t : LineTable) (i : Nat) :
    (t.apply (.clearPending i)).isPending i = false := by
  rw [isPending, getElem?_clearPending]
  cases t.lines[i]? <;> rfl

/-- The sample that a numbered signal amounts to. -/
def sampleOf (x : Bool × Nat) : Command := .sample x.2 x.1

@[simp] theorem now_sampleAll (t : LineTable) (signals : List Bool) :
    (t.sampleAll signals).now = t.now := now_applyAll t _

@[simp] theorem priorityMask_sampleAll (t : LineTable) (signals : List Bool) :
    (t.sampleAll signals).priorityMask = t.priorityMask := priorityMask_applyAll t _

/-- Of the samples of a vector, in any order, one at most concerns a given line. So few of them have
no other order. -/
theorem filter_of_perm {order : List (Bool × Nat)} (horder : order.Perm signals.zipIdx) (i : Nat) :
    (order.map sampleOf).filter (·.concerns i) =
      (signals[i]?.map (Command.sample i)).toList := by
  have hone := filter_zipIdx signals 0 i
  rw [Nat.zero_add] at hone
  have hperm : (order.filter fun x => x.2 == i).Perm (signals[i]?.map fun x => (x, i)).toList :=
    hone ▸ horder.filter _
  rw [List.filter_map]
  show List.map _ (order.filter fun x => x.2 == i) = _
  cases hi : signals[i]? with
  | none =>
    rw [hi] at hperm
    rw [List.perm_nil.mp hperm]
    rfl
  | some signal =>
    rw [hi] at hperm
    rw [List.perm_singleton.mp hperm]
    rfl

/-- **What the samples of a vector do**, in any order: each line is sampled once at most, and with
its own signal. -/
theorem getElem?_of_perm {order : List (Bool × Nat)} (horder : order.Perm signals.zipIdx)
    (t : LineTable) (i : Nat) :
    (t.applyAll (order.map sampleOf)).lines[i]? =
      signals[i]?.elim t.lines[i]? fun signal => t.lines[i]?.map (Line.sample t.now signal) := by
  rw [getElem?_applyAll, filter_of_perm horder]
  cases signals[i]? with
  | none => exact Option.map_id_fun' ▸ rfl
  | some signal => rfl

/-- **Each line is sampled with its own signal**, and lines without a signal are left. -/
theorem getElem?_sampleAll (t : LineTable) (signals : List Bool) (i : Nat) :
    (t.sampleAll signals).lines[i]? =
      signals[i]?.elim t.lines[i]? fun signal => t.lines[i]?.map (Line.sample t.now signal) :=
  getElem?_of_perm (List.Perm.refl _) t i

/-- The order of the samples does not matter. -/
theorem applyAll_of_perm {order : List (Bool × Nat)} (horder : order.Perm signals.zipIdx)
    (t : LineTable) : t.applyAll (order.map sampleOf) = t.sampleAll signals := by
  refine ext_lines (by simp) (by simp) fun i => ?_
  rw [getElem?_of_perm horder, getElem?_sampleAll]

/-- Signals beyond the last line have no effect. -/
theorem sampleAll_take (t : LineTable) (signals : List Bool) :
    t.sampleAll (signals.take t.size) = t.sampleAll signals := by
  refine ext_lines (by simp) (by simp) fun i => ?_
  rw [getElem?_sampleAll, getElem?_sampleAll, List.getElem?_take]
  split
  · rfl
  · next hi =>
    have hnone : t.lines[i]? = none := Array.getElem?_eq_none (Nat.not_lt.mp hi)
    cases signals[i]? <;> simp [hnone]

/-- **Sampling the same vector once more changes nothing.** -/
theorem sampleAll_sampleAll (t : LineTable) (signals : List Bool) :
    (t.sampleAll signals).sampleAll signals = t.sampleAll signals := by
  refine ext_lines (by simp) (by simp) fun i => ?_
  rw [getElem?_sampleAll, getElem?_sampleAll]
  cases signals[i]? with
  | none => rfl
  | some signal => simp [Function.comp_def, Line.sample_sample]

/-- What is pending on a line that was sampled, whose request was then withdrawn, and that is
sampled anew: nothing on an edge line, and on a level line what its signal asserts. -/
theorem isPending_sampleAll_of_cleared {i : Nat} {l : Line} {signal : Bool}
    (hsignal : signals[i]? = some signal) (hl : t.lines[i]? = some l) :
    (((t.sampleAll signals).apply (.clearPending i)).sampleAll signals).isPending i =
      match l.attributes.trigger with
      | .edge => false
      | .level => l.attributes.polarity.asserts signal := by
  have hsampled : (t.sampleAll signals).lines[i]? = some (l.sample t.now signal) := by
    rw [getElem?_sampleAll, hsignal, hl]
    rfl
  have hcleared : ((t.sampleAll signals).apply (.clearPending i)).lines[i]? =
      some (l.sample t.now signal).lower := by
    rw [getElem?_clearPending, hsampled]
    rfl
  have hagain : (((t.sampleAll signals).apply (.clearPending i)).sampleAll signals).lines[i]? =
      some ((l.sample t.now signal).lower.sample
        ((t.sampleAll signals).apply (.clearPending i)).now signal) := by
    rw [getElem?_sampleAll, hsignal, hcleared]
    rfl
  have hattributes : (l.sample t.now signal).lower.attributes = l.attributes :=
    Line.attributes_sample t.now signal l
  have hinput : (l.sample t.now signal).lower.input = signal := Line.input_sample t.now signal l
  rw [isPending_eq hagain, Line.pending_sample, hattributes, hinput]
  cases l.attributes.trigger <;> simp

end LineTable

namespace Controller

variable {σ : Type}

/-- **A vector of signals is a sample of each line**, once and apart from the others. A line that has
a signal becomes what a sample of it alone would make of it, and all else stays as it is: the other
lines, clock, thresholds, record and memory. Signals beyond the last line have no effect, and the
lines can be sampled one by one in any order. The same vector once more changes nothing. A request
that was withdrawn while its signal is held comes back with it on an asserted level line, and does
not on an edge line. -/
theorem sampleAll_samples_each (h : Handler σ) (c : Controller σ) (signals : List Bool) :
    let sampled := (c.step h (.sampleAll signals)).2
    let alone (i : Nat) (signal : Bool) := (c.step h (.access (.command (.sample i signal)))).2
    (∀ (i : Nat) (signal : Bool), signals[i]? = some signal →
      sampled.table.lines[i]? = (alone i signal).table.lines[i]?) ∧
    (∀ i : Nat, signals.length ≤ i → sampled.table.lines[i]? = c.table.lines[i]?) ∧
    (c.step h (.sampleAll (signals.take c.table.size))).2 = sampled ∧
    (sampled.table.now = c.table.now ∧ sampled.table.priorityMask = c.table.priorityMask ∧
      sampled.thresholds = c.thresholds ∧ sampled.record = c.record ∧
      sampled.memory = c.memory) ∧
    (∀ order : List (Bool × Nat), order.Perm (signals.take c.table.size).zipIdx →
      (c.run h (order.map fun x => .access (.command (.sample x.2 x.1)))).2 = sampled) ∧
    (sampled.step h (.sampleAll signals)).2 = sampled ∧
    ∀ (i : Nat) (signal : Bool) (l : Line), signals[i]? = some signal → c.table.lines[i]? = some l →
      let cleared := (sampled.step h (.access (.command (.clearPending i)))).2
      let again := (cleared.step h (.sampleAll signals)).2
      cleared.table.isPending i = false ∧
        (l.attributes.trigger = .edge → again.table.isPending i = false) ∧
        (l.attributes.trigger = .level → l.attributes.polarity.asserts signal = true →
          again.table.isPending i = true) := by
  intro sampled alone
  refine ⟨?_, ?_, ?_, ?_, ?_, ?_, ?_⟩
  · intro i signal hsignal
    have hsampled := LineTable.getElem?_sampleAll c.table signals i
    rw [hsignal] at hsampled
    exact hsampled.trans (LineTable.getElem?_sample c.table i signal).symm
  · intro i hi
    have hsampled := LineTable.getElem?_sampleAll c.table signals i
    rw [List.getElem?_eq_none hi] at hsampled
    exact hsampled
  · exact congrArg (fun table => { c with table }) (c.table.sampleAll_take signals)
  · exact ⟨c.table.now_sampleAll signals, c.table.priorityMask_sampleAll signals, rfl, rfl, rfl⟩
  · intro order horder
    have hrun := run_commands h c (order.map LineTable.sampleOf)
    rw [List.map_map, LineTable.applyAll_of_perm horder, LineTable.sampleAll_take] at hrun
    exact hrun
  · exact congrArg (fun table => { c with table }) (c.table.sampleAll_sampleAll signals)
  · intro i signal l hsignal hl cleared again
    have hagain : again.table.isPending i = _ :=
      LineTable.isPending_sampleAll_of_cleared hsignal hl
    refine ⟨LineTable.isPending_clearPending _ i, fun hedge => ?_, fun hlevel hasserted => ?_⟩
    · rw [hagain, hedge]
    · rw [hagain, hlevel, hasserted]

/-- An edge line and an asserted level line are sampled in either order, with one signal to spare.
Both are pending then; when both requests are withdrawn, the same vector brings back the second. -/
theorem sampleAll_samples_each_of_held :
    let h : Handler Unit := .passive
    let command (cmd : Command) : Operation := .access (.command cmd)
    let c := ((ofGeometry { lines := 2 } ()).run h
      [command (.setAttributes 0 6), command (.setAttributes 1 0), .poll 0]).2
    let signals := [true, false, true]
    let sampled := (c.step h (.sampleAll signals)).2
    let again (i : Nat) :=
      ((sampled.step h (command (.clearPending i))).2.step h (.sampleAll signals)).2
    let order := [(false, 1), (true, 0)]
    order.Perm (signals.take c.table.size).zipIdx ∧
      (c.run h [command (.sample 1 false), command (.sample 0 true)]).2 = sampled ∧
      sampled.table.lines.map Line.since = #[some 1, some 1] ∧
      (again 0).table.isPending 0 = false ∧ (again 1).table.isPending 1 = true := by
  intro h command c signals sampled again order
  have horder : order.Perm (signals.take c.table.size).zipIdx := by decide +kernel
  obtain ⟨-, -, -, -, horders, -, hheld⟩ := sampleAll_samples_each h c signals
  have hedge := hheld 0 true { attributes := ⟨.edge, .positive⟩ } rfl (by decide +kernel)
  have hlevel := hheld 1 false { attributes := ⟨.level, .negative⟩ } rfl (by decide +kernel)
  exact ⟨horder, horders order horder, by decide +kernel, hedge.2.1 rfl, hlevel.2.2 rfl rfl⟩

end Controller

end Irq
