import Irq.Proofs.Checks
import Irq.Proofs.WaitingTime
import Mathlib.Data.Nat.Find

/-!
# Irq.Proofs.Polling

Waiting as repeated polling. A wait does not look at what its polls deliver; it watches the count of
the awaited line. A client that polls by itself sees the deliveries. Both come to the same, because
a cycle counts the line that it delivers and no other (`count_cycle`): a wait ends with the first poll
that delivers its line and leaves the controller as these polls leave it, or it makes as many polls
as it may and none of them has delivered the line.
-/

namespace Irq.Controller

variable {σ : Type}

/-- The controller after so many polls of a context. -/
def afterPolls (h : Handler σ) (c : Controller σ) (context n : Nat) : Controller σ :=
  (c.run h (List.replicate n (.poll context))).2

/-- Whether the next poll of a context delivers a line, after so many polls of it. -/
def deliversAfter (h : Handler σ) (c : Controller σ) (context line n : Nat) : Bool :=
  match ((c.afterPolls h context n).poll h context).1 with
  | .ok (some d) => d.line == line
  | .ok none | .error _ => false

/-- Whether context and line are there: the context with the given threshold, the line in the table
and in the record. -/
structure Present (context line : Nat) (threshold : UInt8) (c : Controller σ) : Prop where
  get : c.thresholds.get context = .ok threshold
  lt_size : line < c.table.size
  lt_counts : line < c.record.counts.size

section
variable {h : Handler σ} {c : Controller σ} {context line : Nat} {threshold : UInt8}

/-! ## What is there stays there -/

/-- A run neither adds nor removes contexts. -/
theorem exists_get_run (g : Geometry) (memory : σ) (h : Handler σ) (ops : List Operation)
    (hcontext : context < g.contexts) :
    ∃ threshold, ((ofGeometry g memory).run h ops).2.thresholds.get context = .ok threshold := by
  have hlt : context < ((ofGeometry g memory).run h ops).2.thresholds.levels.size := by
    show context < Thresholds.size _
    rw [(course_run h (ofGeometry g memory) ops).sizes.2]
    exact (Thresholds.size_ofSize g.contexts).symm ▸ hcontext
  exact ⟨_, Thresholds.get_eq_ok_iff.mpr (Array.getElem?_eq_getElem hlt)⟩

/-- A run neither adds nor removes lines. -/
theorem exists_present_run (g : Geometry) (memory : σ) (h : Handler σ) (ops : List Operation)
    (hcontext : context < g.contexts) (hline : line < g.lines) :
    ∃ threshold, Present context line threshold ((ofGeometry g memory).run h ops).2 := by
  obtain ⟨threshold, hg⟩ := exists_get_run g memory h ops hcontext
  refine ⟨threshold, hg, ?_, ?_⟩
  · rw [(course_run h (ofGeometry g memory) ops).table, LineTable.size_replay]
    exact (LineTable.size_ofSize g.lines g.priorityBits).symm ▸ hline
  · rw [size_counts_run g memory h ops]
    exact hline

namespace Present

/-- A cycle takes away neither line nor context. -/
theorem cycle (hp : Present context line threshold c) (h : Handler σ) :
    Present context line threshold (cycle h context threshold c).2 where
  get := get_cycle h hp.get
  lt_size := (size_table_cycle h context threshold c).symm ▸ hp.lt_size
  lt_counts := (size_counts_cycle h context threshold c).symm ▸ hp.lt_counts

/-- A command takes away neither line nor context. -/
theorem command (hp : Present context line threshold c) (cmd : Command) :
    Present context line threshold (c.command cmd).2 where
  get := hp.get
  lt_size := (LineTable.size_apply c.table cmd).symm ▸ hp.lt_size
  lt_counts := hp.lt_counts

end Present

/-! ## The first poll, and the others -/

/-- Polls are a cycle and then one poll less. -/
theorem afterPolls_succ (hg : c.thresholds.get context = .ok threshold) (n : Nat) :
    c.afterPolls h context (n + 1) = (cycle h context threshold c).2.afterPolls h context n := by
  have hpoll : (c.poll h context).2 = (cycle h context threshold c).2 := by
    rw [poll_eq_cycle h hg]
  rw [← hpoll]
  rfl

/-- The context is there as before. -/
theorem get_afterPolls (hg : c.thresholds.get context = .ok threshold) (n : Nat) :
    (c.afterPolls h context n).thresholds.get context = .ok threshold := by
  induction n generalizing c with
  | zero => exact hg
  | succ n ih =>
    rw [afterPolls_succ hg]
    exact ih (get_cycle h hg)

/-- The last poll is a cycle of what the others have left. -/
theorem afterPolls_succ_last (hg : c.thresholds.get context = .ok threshold) (n : Nat) :
    c.afterPolls h context (n + 1) =
      (cycle h context threshold (c.afterPolls h context n)).2 := by
  induction n generalizing c with
  | zero => rw [afterPolls_succ hg]; rfl
  | succ n ih =>
    rw [afterPolls_succ hg (n + 1), afterPolls_succ hg n]
    exact ih (get_cycle h hg)

/-- The first poll delivers the line if the first cycle does. -/
theorem deliversAfter_zero (hg : c.thresholds.get context = .ok threshold) (line : Nat) :
    c.deliversAfter h context line 0 =
      (cycle h context threshold c).1.any (·.line == line) := by
  have hpoll : ((c.afterPolls h context 0).poll h context).1 =
      .ok (cycle h context threshold c).1 := congrArg Prod.fst (poll_eq_cycle h hg)
  rw [deliversAfter, hpoll]
  cases (cycle h context threshold c).1 <;> rfl

/-- A later poll delivers the line if it does so after the first cycle, one poll earlier. -/
theorem deliversAfter_succ (hg : c.thresholds.get context = .ok threshold) (line n : Nat) :
    c.deliversAfter h context line (n + 1) =
      (cycle h context threshold c).2.deliversAfter h context line n := by
  rw [deliversAfter, afterPolls_succ hg]
  rfl

/-- Polls take away neither line nor context. -/
theorem Present.afterPolls (hp : Present context line threshold c) (h : Handler σ) (n : Nat) :
    Present context line threshold (c.afterPolls h context n) := by
  induction n generalizing c with
  | zero => exact hp
  | succ n ih =>
    rw [afterPolls_succ hp.get]
    exact ih (hp.cycle h)

/-- **A cycle counts what it delivers**, and nothing else. -/
theorem count_cycle (h : Handler σ) (context : Nat) (threshold : UInt8)
    (hline : line < c.record.counts.size) :
    (cycle h context threshold c).2.record.count line =
      c.record.count line + ((cycle h context threshold c).1.any (·.line == line)).toNat := by
  unfold cycle
  cases c.tick.table.winner threshold with
  | none => rfl
  | some r =>
    have hadd := c.record.count_add r.line r.priority (c.tick.table.waited r.line) line
    refine hadd.trans ?_
    by_cases hr : r.line = line <;> simp [hr, hline, Request.on]

/-! ## The wait -/

/-- **A wait makes the polls up to the first that delivers its line**, or all that it may make if
there is none, by induction on their number. -/
theorem cyclesUntil_eq_afterPolls {before : Nat} (hp : Present context line threshold c)
    (hbefore : c.record.count line = before) (budget : Nat) :
    let loop :=
      cyclesUntil h context threshold (fun _ d => before < d.record.count line) budget [] c
    (∀ k < budget, c.deliversAfter h context line k = true →
      (∀ j < k, c.deliversAfter h context line j = false) →
      loop.1.length = k + 1 ∧ loop.2 = c.afterPolls h context (k + 1) ∧
        loop.2.record.count line = before + 1) ∧
    ((∀ k < budget, c.deliversAfter h context line k = false) →
      loop.1.length = budget ∧ loop.2 = c.afterPolls h context budget ∧
        loop.2.record.count line = before) := by
  induction budget generalizing c with
  | zero => exact ⟨fun k hk => absurd hk (Nat.not_lt_zero k), fun _ => ⟨rfl, rfl, hbefore⟩⟩
  | succ budget ih =>
    have hcount := count_cycle h context threshold hp.lt_counts
    rw [hbefore, ← deliversAfter_zero hp.get line] at hcount
    simp only [cyclesUntil_succ]
    cases hfirst : c.deliversAfter h context line 0 with
    | true =>
      rw [hfirst, Bool.toNat_true] at hcount
      rw [if_pos (by simp [hcount])]
      refine ⟨fun k _ _ hearlier => ?_, fun hnone => ?_⟩
      · cases k with
        | zero => exact ⟨rfl, (afterPolls_succ hp.get 0).symm, hcount⟩
        | succ k => cases hfirst.symm.trans (hearlier 0 (Nat.zero_lt_succ k))
      · cases hfirst.symm.trans (hnone 0 (Nat.zero_lt_succ budget))
    | false =>
      rw [hfirst, Bool.toNat_false, Nat.add_zero] at hcount
      rw [if_neg (by simp [hcount]), cyclesUntil_earlier]
      obtain ⟨hserved, hmissed⟩ := ih (hp.cycle h) hcount
      refine ⟨fun k hk hdelivers hearlier => ?_, fun hnone => ?_⟩
      · cases k with
        | zero => cases hfirst.symm.trans hdelivers
        | succ k =>
          rw [deliversAfter_succ hp.get] at hdelivers
          obtain ⟨hlength, hloop, hend⟩ := hserved k (Nat.lt_of_succ_lt_succ hk) hdelivers
            fun j hj => (deliversAfter_succ hp.get line j).symm.trans
              (hearlier (j + 1) (Nat.succ_lt_succ hj))
          rw [afterPolls_succ hp.get (k + 1)]
          refine ⟨?_, hloop, hend⟩
          simp [hlength]
      · obtain ⟨hlength, hloop, hend⟩ := hmissed fun k hk =>
          (deliversAfter_succ hp.get line k).symm.trans
            (hnone (k + 1) (Nat.succ_lt_succ hk))
        rw [afterPolls_succ hp.get budget]
        refine ⟨?_, hloop, hend⟩
        simp [hlength]

/-- A wait in which a poll delivers the line ends with the first such poll. -/
theorem awaitService_of_delivered (hp : Present context line threshold c) {k maxPolls : Nat}
    (hk : k < maxPolls) (hdelivers : c.deliversAfter h context line k = true)
    (hearlier : ∀ j < k, c.deliversAfter h context line j = false) :
    c.awaitService h context line maxPolls = (.ok (k + 1), c.afterPolls h context (k + 1)) ∧
      (c.afterPolls h context (k + 1)).record.count line = c.record.count line + 1 := by
  obtain ⟨hlength, hloop, hend⟩ :=
    (cyclesUntil_eq_afterPolls (h := h) hp rfl maxPolls).1 k hk hdelivers hearlier
  have hserved : c.record.count line < _ := Nat.lt_of_lt_of_eq (Nat.lt_succ_self _) hend.symm
  rw [awaitService_eq_loop h hp.lt_size hp.get, if_pos hserved, hlength, ← hloop]
  exact ⟨rfl, hend⟩

/-- A wait in which no poll delivers the line uses its budget up. -/
theorem awaitService_of_not_delivered (hp : Present context line threshold c) {maxPolls : Nat}
    (hnone : ∀ k < maxPolls, c.deliversAfter h context line k = false) :
    c.awaitService h context line maxPolls =
        (.error (.timeout line maxPolls), c.afterPolls h context maxPolls) ∧
      (c.afterPolls h context maxPolls).record.count line = c.record.count line := by
  obtain ⟨-, hloop, hend⟩ := (cyclesUntil_eq_afterPolls (h := h) hp rfl maxPolls).2 hnone
  rw [awaitService_eq_loop h hp.lt_size hp.get, if_neg (Nat.not_lt.mpr (Nat.le_of_eq hend)),
    ← hloop]
  exact ⟨rfl, hend⟩

/-- **How a wait ends**: with a service of its line, or with its budget. -/
theorem awaitService_cases (hp : Present context line threshold c) (h : Handler σ)
    (maxPolls : Nat) :
    (∃ k < maxPolls,
      c.awaitService h context line maxPolls = (.ok (k + 1), c.afterPolls h context (k + 1)) ∧
        (c.afterPolls h context (k + 1)).record.count line = c.record.count line + 1) ∨
    (c.awaitService h context line maxPolls =
        (.error (.timeout line maxPolls), c.afterPolls h context maxPolls) ∧
      (c.afterPolls h context maxPolls).record.count line = c.record.count line) := by
  by_cases hex : ∃ k, k < maxPolls ∧ c.deliversAfter h context line k = true
  · obtain ⟨hk, hdelivers⟩ := Nat.find_spec hex
    have hearlier : ∀ j < Nat.find hex, c.deliversAfter h context line j = false := by
      intro j hj
      have hnot := Nat.find_min hex hj
      simpa [Nat.lt_trans hj hk] using hnot
    exact .inl ⟨_, hk, awaitService_of_delivered hp hk hdelivers hearlier⟩
  · refine .inr (awaitService_of_not_delivered hp fun k hk => ?_)
    simpa using fun hdelivers => hex ⟨k, hk, hdelivers⟩

end

/-- **Waiting is polling until the line is first delivered.** Let a controller be reached in any
way, with any handler, and let a line be awaited on a context. Every poll of the context is answered. If
some poll within the budget delivers the line, the wait ends with the first that does, tells its
number, and leaves the controller just as so many polls leave it: lines, clock, record and the
memory of the handler. If none does, the wait is given up and leaves the controller as the polls of
its budget leave it, and the count of the line has not changed. -/
theorem awaitService_is_polling (g : Geometry) (memory : σ) (h : Handler σ) (ops : List Operation)
    {context line : Nat} (hcontext : context < g.contexts) (hline : line < g.lines)
    (maxPolls : Nat) :
    let c := ((ofGeometry g memory).run h ops).2
    (∀ n, ∃ answer, ((c.afterPolls h context n).poll h context).1 = .ok answer) ∧
    (∀ k < maxPolls, c.deliversAfter h context line k = true →
      (∀ j < k, c.deliversAfter h context line j = false) →
      c.awaitService h context line maxPolls = (.ok (k + 1), c.afterPolls h context (k + 1))) ∧
    ((∀ k < maxPolls, c.deliversAfter h context line k = false) →
      c.awaitService h context line maxPolls =
          (.error (.timeout line maxPolls), c.afterPolls h context maxPolls) ∧
        (c.afterPolls h context maxPolls).record.count line = c.record.count line) := by
  intro c
  obtain ⟨threshold, hp⟩ := exists_present_run g memory h ops hcontext hline
  refine ⟨fun n => ?_, fun k hk hdelivers hearlier => ?_, fun hnone => ?_⟩
  · exact ⟨_, congrArg Prod.fst (poll_eq_cycle h (hp.afterPolls h n).get)⟩
  · exact (awaitService_of_delivered hp hk hdelivers hearlier).1
  · exact awaitService_of_not_delivered hp hnone

/-- The handler answers the first line with a request of the second, which overtakes the third: with
a budget of three the third is reached by the last poll, and with a budget of two it is given up. -/
theorem awaitService_is_polling_of_overtaken :
    let h : Handler Nat :=
      ⟨fun n d _ => (n + 1, if d.line = 0 then [.setPending 1] else [.disable 1])⟩
    let g : Geometry := { lines := 3 }
    let raised (line : Nat) (priority : UInt8) (trigger : Trigger) : List Operation :=
      [.access (.command (.configure line priority ⟨trigger, .positive⟩)),
        .access (.command (.enable line))]
    let ops := raised 0 1 .edge ++ raised 1 2 .level ++ raised 2 3 .edge ++
      [.access (.command (.setPending 0)), .access (.command (.setPending 2))]
    let c := ((ofGeometry g 0).run h ops).2
    0 < g.contexts ∧ 2 < g.lines ∧
      c.awaitService h 0 2 3 = (.ok 3, c.afterPolls h 0 3) ∧
      c.awaitService h 0 2 2 = (.error (.timeout 2 2), c.afterPolls h 0 2) ∧
      (c.afterPolls h 0 2).record.count 2 = 0 := by
  intro h g raised ops c
  have hcontext : 0 < g.contexts := by decide
  have hline : 2 < g.lines := by decide
  obtain ⟨-, hserved, -⟩ := awaitService_is_polling g 0 h ops hcontext hline 3
  obtain ⟨-, -, hmissed⟩ := awaitService_is_polling g 0 h ops hcontext hline 2
  obtain ⟨htimeout, hcount⟩ := hmissed (by decide +kernel)
  exact ⟨hcontext, hline, hserved 2 (by decide) (by decide +kernel) (by decide +kernel), htimeout,
    hcount.trans (by decide +kernel)⟩

end Irq.Controller
