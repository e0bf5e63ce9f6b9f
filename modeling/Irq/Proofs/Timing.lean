import Irq.Proofs.Likeness

/-!
# Irq.Proofs.Timing

Time does not tell. The clock, the stamps and the summary of waits are written at every poll and
every request, and nothing that is dispatched depends on them: two controllers that differ in them
alone answer the same and deliver the same for ever, with any handler that does not look at them
either. A poll that services nothing changes nothing but the clock, so such polls can be put into a
run or taken out of it without any other answer noticing.
-/

namespace Irq

/-- Whether what a handler does depends neither on the clock nor on stamps. -/
def Handler.IgnoresTime {σ : Type} (h : Handler σ) : Prop :=
  ∀ memory d (t t' : LineTable), t.untimed = t'.untimed →
    h.deliver memory d t = h.deliver memory d t'

/-- The operations that are marked, without their marks. -/
def marked (ops : List (Operation × Bool)) : List Operation := (ops.filter Prod.snd).map Prod.fst

/-- The answers to the marked operations. -/
def markedAnswers (ops : List (Operation × Bool)) (answers : List (Except Error Response)) :
    List (Except Error Response) :=
  ((ops.zip answers).filter fun x => x.1.2).map Prod.snd

/-- Whether all operations of a run that are not marked are polls that service nothing. -/
def Controller.IdleUnlessMarked {σ : Type} (h : Handler σ) :
    Controller σ → List (Operation × Bool) → Prop
  | _, [] => True
  | c, (op, mark) :: ops =>
    (mark = true ∨ ∃ context, op = .poll context ∧ (c.poll h context).1 = .ok none) ∧
      IdleUnlessMarked h (c.step h op).2 ops

namespace Handler

variable {σ : Type}

theorem ignoresTime_passive : (passive : Handler σ).IgnoresTime := fun _ _ _ _ _ => rfl

/-- To acknowledge takes no look at the time. -/
theorem IgnoresTime.acknowledging {h : Handler σ} (hh : h.IgnoresTime) :
    h.acknowledging.IgnoresTime := by
  intro memory d t t' ht
  simp only [Handler.acknowledging, hh memory d t t' ht]

/-- A handler that ignores the time leaves tables alike that were alike, times left aside. -/
theorem IgnoresTime.handle {h : Handler σ} (hh : h.IgnoresTime) (memory : σ) (d : Delivery)
    {t t' : LineTable} (ht : t.untimed = t'.untimed) :
    (h.handle memory d t).1 = (h.handle memory d t').1 ∧
      (h.handle memory d t).2.untimed = (h.handle memory d t').2.untimed := by
  unfold Handler.handle
  rw [hh memory d t t' ht]
  exact ⟨rfl, LineTable.untimed_applyAll_congr ht _⟩

end Handler

namespace ServiceRecord

/-- What is left of a record does not depend on the waits that are entered. -/
theorem untimed_add (r : ServiceRecord) (line : Nat) (priority : UInt8) (wait : Option Nat) :
    (r.add line priority wait).untimed = (r.untimed.add line priority none).untimed := rfl

theorem count_untimed (r : ServiceRecord) (line : Nat) : r.untimed.count line = r.count line := rfl

end ServiceRecord

namespace Controller

variable {σ : Type}

/-- Controllers are the same but for times if all their parts are. -/
theorem untimed_eq_iff {c d : Controller σ} :
    c.untimed = d.untimed ↔
      c.table.untimed = d.table.untimed ∧ c.thresholds = d.thresholds ∧
        c.record.untimed = d.record.untimed ∧ c.memory = d.memory := by
  simp only [untimed, mk.injEq]

/-! ## Controllers that differ in time alone -/

/-- **Nothing tells controllers apart that differ in time alone**, if the handler does not. -/
theorem likeness_untimed {h : Handler σ} (hh : h.IgnoresTime) :
    Likeness h h fun c d => c.untimed = d.untimed where
  table := fun hR => congrArg Controller.table hR
  thresholds := fun hR => (untimed_eq_iff.mp hR).2.1
  count := by
    intro c d hR line
    rw [← ServiceRecord.count_untimed, (untimed_eq_iff.mp hR).2.2.1, ServiceRecord.count_untimed]
  command := by
    intro c d hR cmd
    obtain ⟨htable, hothers⟩ := untimed_eq_iff.mp hR
    exact untimed_eq_iff.mpr ⟨LineTable.untimed_happen_congr htable (.command cmd), hothers⟩
  threshold := by
    intro c d hR context level
    obtain ⟨htable, hthresholds, hothers⟩ := untimed_eq_iff.mp hR
    unfold setThreshold
    rw [hthresholds]
    cases d.thresholds.set context level with
    | error e => exact hR
    | ok thresholds => exact untimed_eq_iff.mpr ⟨htable, rfl, hothers⟩
  reset := by
    intro c d hR
    obtain ⟨htable, hthresholds, hrecord, hmemory⟩ := untimed_eq_iff.mp hR
    refine untimed_eq_iff.mpr ⟨LineTable.untimed_happen_congr htable (.command .reset), ?_, ?_,
      hmemory⟩
    · exact congrArg Thresholds.reset hthresholds
    · have hcounts := congrArg ServiceRecord.counts hrecord
      change c.record.counts = d.record.counts at hcounts
      show c.record.reset.untimed = d.record.reset.untimed
      rw [ServiceRecord.reset, ServiceRecord.reset, hcounts]
  tick := by
    intro c d hR
    obtain ⟨htable, hothers⟩ := untimed_eq_iff.mp hR
    exact untimed_eq_iff.mpr ⟨LineTable.untimed_happen_congr htable .tick, hothers⟩
  serve := by
    intro c d hR delivery
    obtain ⟨htable, hthresholds, hrecord, hmemory⟩ := untimed_eq_iff.mp hR
    have hserved := LineTable.untimed_happen_congr htable (.delivery delivery)
    obtain ⟨hmemory', htable'⟩ := hh.handle d.memory delivery hserved
    refine untimed_eq_iff.mpr ⟨?_, hthresholds, ?_, ?_⟩
    · show (h.handle c.memory delivery (c.table.serve delivery.line)).2.untimed = _
      rw [hmemory]
      exact htable'
    · show (c.record.add ..).untimed = (d.record.add ..).untimed
      rw [ServiceRecord.untimed_add, hrecord, ← ServiceRecord.untimed_add]
    · show (h.handle c.memory delivery (c.table.serve delivery.line)).1 = _
      rw [hmemory]
      exact hmemory'

/-! ## Polls that service nothing -/

/-- A poll services nothing exactly if its context lets no line be serviced. -/
theorem fst_poll_eq_none_iff {h : Handler σ} {c : Controller σ} {context : Nat} :
    (c.poll h context).1 = .ok none ↔
      c.thresholds.levels[context]?.any (fun level => (c.table.winner level).isNone) = true := by
  rw [fst_poll, pendingRequest, Thresholds.get]
  cases c.thresholds.levels[context]? <;> simp [Except.map]

/-- A poll that services nothing changes nothing but the clock. -/
theorem snd_poll_of_none {h : Handler σ} {c : Controller σ} {context : Nat}
    (hnone : (c.poll h context).1 = .ok none) : (c.poll h context).2 = c.tick := by
  unfold poll at hnone ⊢
  cases hg : c.thresholds.get context with
  | error e => simp [hg] at hnone
  | ok threshold =>
    simp only [hg, Except.ok.injEq] at hnone ⊢
    unfold cycle at hnone ⊢
    cases hw : c.tick.table.winner threshold with
    | none => rfl
    | some r => simp [hw] at hnone

/-- With the image of the handler's memory the same polls service nothing. -/
theorem idleUnlessMarked_mapMemory {τ : Type} {f : σ → τ} {h : Handler σ} {h' : Handler τ}
    (hf : Handler.Through f h h') (c : Controller σ) (ops : List (Operation × Bool)) :
    IdleUnlessMarked h' (c.mapMemory f) ops ↔ IdleUnlessMarked h c ops := by
  induction ops generalizing c with
  | nil => rfl
  | cons x ops ih =>
    have hpoll (context : Nat) : (c.poll h context).1 = ((c.mapMemory f).poll h' context).1 :=
      ((simulation_mapMemory hf).poll context rfl).1
    simp only [IdleUnlessMarked, step_mapMemory hf, ih, hpoll]

namespace Likeness

variable {τ : Type} {h : Handler σ} {h' : Handler τ} {R : Controller σ → Controller τ → Prop}
  {c : Controller σ} {d : Controller τ}

/-- **Polls that service nothing can be left out**, where controllers stay alike when the clock of
the first goes on alone. -/
theorem run_marked (L : Likeness h h' R) (htick : ∀ {c d}, R c d → R c.tick d) (hR : R c d)
    {ops : List (Operation × Bool)} (hidle : IdleUnlessMarked h c ops) :
    (markedAnswers ops (c.run h (ops.map Prod.fst)).1).map (Except.map Response.untimed) =
        (d.run h' (marked ops)).1.map (Except.map Response.untimed) ∧
      R (c.run h (ops.map Prod.fst)).2 (d.run h' (marked ops)).2 := by
  induction ops generalizing c d with
  | nil => exact ⟨rfl, hR⟩
  | cons x ops ih =>
    obtain ⟨op, mark⟩ := x
    obtain ⟨hhead, hlater⟩ := hidle
    cases mark with
    | true =>
      obtain ⟨hanswer, hnext⟩ := L.step hR op
      obtain ⟨hanswers, hend⟩ := ih hnext hlater
      refine ⟨?_, hend⟩
      show (c.step h op).1.map Response.untimed :: _ = (d.step h' op).1.map Response.untimed :: _
      rw [hanswer]
      exact congrArg _ hanswers
    | false =>
      obtain ⟨context, rfl, hnone⟩ := hhead.resolve_left Bool.false_ne_true
      have hpoll : (c.step h (.poll context)).2 = c.tick := snd_poll_of_none hnone
      exact ih (hpoll ▸ htick hR) hlater

/-- The handlers of both receive the same deliveries, with such polls and without them. -/
theorem deliveries_marked (L : Likeness h h' R) (htick : ∀ {c d}, R c d → R c.tick d) (hR : R c d)
    {ops : List (Operation × Bool)} (hidle : IdleUnlessMarked h c ops) :
    c.deliveries h (ops.map Prod.fst) = d.deliveries h' (marked ops) := by
  have htick' {c : Controller (σ × List Call)} {d : Controller (τ × List Call)}
      (hR : LogsAlike R c d) : LogsAlike R c.tick d := ⟨htick hR.1, hR.2⟩
  have hlogged : IdleUnlessMarked h.logged c.withLog ops :=
    (idleUnlessMarked_mapMemory (Handler.through_fst h) c.withLog ops).mp hidle
  exact (L.logged.run_marked htick' (logsAlike_withLog hR) hlogged).2.2

end Likeness

/-- **Time does not influence dispatch.** Let two controllers agree in everything but clock, stamps
and waits, and let their handler look at neither clock nor stamps. Then every run answers the same
on both, apart from what an answer shows of clock and stamps, their handlers receive the same
deliveries, and the controllers agree as before. And if polls that service nothing are put into a
run, or taken out of it, all other answers and all deliveries stay the same. -/
theorem time_does_not_tell (h : Handler σ) (hh : h.IgnoresTime) :
    (∀ (c d : Controller σ) (ops : List Operation), c.untimed = d.untimed →
      (c.run h ops).1.map (Except.map Response.untimed) =
          (d.run h ops).1.map (Except.map Response.untimed) ∧
        c.deliveries h ops = d.deliveries h ops ∧
        (c.run h ops).2.untimed = (d.run h ops).2.untimed) ∧
    ∀ (c : Controller σ) (ops : List (Operation × Bool)), IdleUnlessMarked h c ops →
      (markedAnswers ops (c.run h (ops.map Prod.fst)).1).map (Except.map Response.untimed) =
          (c.run h (marked ops)).1.map (Except.map Response.untimed) ∧
        c.deliveries h (ops.map Prod.fst) = c.deliveries h (marked ops) ∧
        (c.run h (ops.map Prod.fst)).2.untimed = (c.run h (marked ops)).2.untimed := by
  have L := likeness_untimed hh
  refine ⟨fun c d ops hR => ?_, fun c ops hidle => ?_⟩
  · obtain ⟨hanswers, hend⟩ := L.run hR ops
    exact ⟨hanswers, L.deliveries hR ops, hend⟩
  · have htick {c d : Controller σ} (hR : c.untimed = d.untimed) : c.tick.untimed = d.untimed := hR
    obtain ⟨hanswers, hend⟩ := L.run_marked htick rfl hidle
    exact ⟨hanswers, L.deliveries_marked htick rfl hidle, hend⟩

/-- The second controller has polled in vain before its line was raised, so that clock and stamp
differ. Two trials are measured on both, and then again with two polls in vain between them. -/
theorem time_does_not_tell_of_late_start :
    let h : Handler Unit := .acknowledging .passive
    let raised : List Operation :=
      [.access (.command (.configure 0 3 ⟨.level, .positive⟩)), .access (.command (.enable 0)),
        .access (.command (.setPending 0))]
    let start := ofGeometry { lines := 1, contexts := 1 } ()
    let c := (start.run h raised).2
    let d := (start.run h ([.poll 0, .poll 0] ++ raised)).2
    let measure : Operation := .measureLatency 0 0 ⟨2, 5⟩
    let padded := [(measure, true), (.poll 0, false), (.poll 0, false), (measure, true)]
    h.IgnoresTime ∧ c.table ≠ d.table ∧ c.untimed = d.untimed ∧ IdleUnlessMarked h d padded ∧
      c.deliveries h [measure] = d.deliveries h [measure] ∧
      d.deliveries h (padded.map Prod.fst) = d.deliveries h (marked padded) := by
  intro h raised start c d measure padded
  have hh : h.IgnoresTime := Handler.ignoresTime_passive.acknowledging
  have hsame : c.untimed = d.untimed :=
    untimed_eq_iff.mpr ⟨by decide +kernel, by decide +kernel, by decide +kernel, rfl⟩
  have hidle : IdleUnlessMarked h d padded := by
    refine ⟨.inl rfl, .inr ⟨0, rfl, ?_⟩, .inr ⟨0, rfl, ?_⟩, .inl rfl, trivial⟩ <;>
      exact fst_poll_eq_none_iff.mpr (by decide +kernel)
  exact ⟨hh, by decide +kernel, hsame, hidle, ((time_does_not_tell h hh).1 c d _ hsame).2.1,
    ((time_does_not_tell h hh).2 d _ hidle).2.1⟩

end Controller

end Irq
