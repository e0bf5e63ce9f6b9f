import Irq.Proofs.ContextQueue

/-!
# Irq.Proofs.WaitingTime

How many polls a line waits for its service. Each poll of a context services the head of its queue,
and if that gives way, all that stand behind it move up by one place. So a line is reached after as
many polls as its place in the queue tells, provided that nothing ahead of it stays where it is
(`cyclesUntil_of_ahead`); and if something does, or the line does not stand in the queue at all, it
is not serviced however long one polls (`cyclesUntil_of_missed`).
-/

namespace Irq

namespace LineTable

/-- Whether the request of a line stands at place `k` of a context's queue, counted from one, and
all that stands ahead of it gives way when it is serviced. -/
def ReachedAt (t : LineTable) (acknowledged : Bool) (threshold : UInt8) (line k : Nat) : Prop :=
  ∃ ahead r behind, t.queue threshold = ahead ++ r :: behind ∧ r.line = line ∧
    k = ahead.length + 1 ∧ ∀ r' ∈ ahead, t.givesWay acknowledged r' = true

variable {t t' : LineTable} {acknowledged : Bool} {threshold : UInt8} {r : Request}
  {rest : List Request} {line k : Nat}

/-- Nothing is reached in an empty queue. -/
theorem not_reachedAt_of_nil (hq : t.queue threshold = []) :
    ¬ t.ReachedAt acknowledged threshold line k := by
  rintro ⟨ahead, r, behind, hsplit, -⟩
  simp [hq] at hsplit

/-- The head of the queue is reached at once. -/
theorem reachedAt_one (hq : t.queue threshold = r :: rest) :
    t.ReachedAt acknowledged threshold r.line 1 :=
  ⟨[], r, rest, hq, rfl, rfl, by simp⟩

/-- What stands at a place after the service of the head has stood one place further back. A head
that stays is neither the request of the line nor one that gives way to it. -/
theorem reachedAt_succ (hq : t.queue threshold = r :: rest) (hline : r.line ≠ line)
    (hq' : t'.queue threshold = if t.givesWay acknowledged r then rest else r :: rest)
    (hways : ∀ r', t'.givesWay acknowledged r' = t.givesWay acknowledged r')
    (hk : t'.ReachedAt acknowledged threshold line k) :
    t.ReachedAt acknowledged threshold line (k + 1) := by
  obtain ⟨ahead, r₀, behind, hsplit, hr₀, rfl, hahead⟩ := hk
  cases hway : t.givesWay acknowledged r with
  | true =>
    have hrest : rest = ahead ++ r₀ :: behind := by rw [← hsplit, hq', if_pos hway]
    refine ⟨r :: ahead, r₀, behind, by rw [hq, hrest, List.cons_append], hr₀, rfl, ?_⟩
    intro r' hr'
    rcases List.mem_cons.mp hr' with rfl | hr'
    · exact hway
    · rw [← hways, hahead r' hr']
  | false =>
    have hstays : r :: rest = ahead ++ r₀ :: behind := by rw [← hsplit, hq', hway]; rfl
    cases ahead with
    | nil =>
      obtain ⟨rfl, -⟩ := List.cons.inj hstays
      exact absurd hr₀ hline
    | cons a ahead =>
      obtain ⟨rfl, -⟩ := List.cons.inj hstays
      rw [← hways, hahead r List.mem_cons_self] at hway
      cases hway

end LineTable

namespace Controller

variable {σ : Type} {context line before : Nat} {threshold : UInt8} {c : Controller σ} {r : Request}
  {rest : List Request}

/-- Whether a request gives way does not change in a cycle. -/
theorem givesWay_cycle_plain (acknowledged : Bool) (context : Nat) (threshold : UInt8)
    (c : Controller σ) (r : Request) :
    (cycle (.plain acknowledged) context threshold c).2.table.givesWay acknowledged r =
      c.table.givesWay acknowledged r := by
  rw [LineTable.givesWay, LineTable.givesWay, isTriggered_cycle_plain]

/-- A cycle leaves the number of counts. -/
@[simp] theorem size_counts_cycle (h : Handler σ) (context : Nat) (threshold : UInt8)
    (c : Controller σ) :
    (cycle h context threshold c).2.record.counts.size = c.record.counts.size := by
  unfold cycle
  split
  · rfl
  · exact ServiceRecord.size_counts_add ..

/-- A cycle counts the service of the head of the queue. -/
theorem count_cycle_of_queue_cons (h : Handler σ) (context : Nat)
    (hq : c.table.queue threshold = r :: rest) (hline : line < c.record.counts.size) :
    (cycle h context threshold c).2.record.count line =
      if r.line = line then c.record.count line + 1 else c.record.count line := by
  rw [cycle_of_queue_cons h context hq]
  refine (c.record.count_add r.line r.priority (c.tick.table.waited r.line) line).trans ?_
  simp [hline]

/-- **A line is serviced when all that stood ahead of it has been**, by induction on what stands
ahead. -/
theorem cyclesUntil_of_ahead (acknowledged : Bool) (context : Nat) {ahead behind : List Request}
    {budget : Nat} (hq : c.table.queue threshold = ahead ++ r :: behind)
    (hways : ∀ r' ∈ ahead, c.table.givesWay acknowledged r' = true)
    (hbudget : ahead.length < budget) (hline : r.line < c.record.counts.size)
    (hbefore : c.record.count r.line = before) :
    let loop := cyclesUntil (.plain acknowledged) context threshold
      (fun _ d => before < d.record.count r.line) budget [] c
    loop.1.length = ahead.length + 1 ∧ before < loop.2.record.count r.line := by
  induction ahead generalizing c budget with
  | nil =>
    cases budget with
    | zero => cases hbudget
    | succ budget =>
      have hcount := count_cycle_of_queue_cons (.plain acknowledged) context hq hline
      rw [if_pos rfl, hbefore] at hcount
      simp [cyclesUntil_succ, hcount]
  | cons a ahead ih =>
    cases budget with
    | zero => cases hbudget
    | succ budget =>
      have hne : a.line ≠ r.line := by
        have hnodup := c.table.nodup_line_queue threshold
        rw [hq, List.cons_append, List.map_cons, List.nodup_cons] at hnodup
        exact fun ha => hnodup.1 (by simp [ha])
      have hcount := count_cycle_of_queue_cons (.plain acknowledged) context hq hline
      rw [if_neg hne, hbefore] at hcount
      have hnext := queue_cycle_plain acknowledged context hq
      rw [if_pos (hways a List.mem_cons_self)] at hnext
      have hrest := ih hnext
        (fun r' hr' => (givesWay_cycle_plain ..).trans (hways r' (List.mem_cons_of_mem a hr')))
        (Nat.lt_of_succ_lt_succ hbudget) ((size_counts_cycle ..).symm ▸ hline) hcount
      simp only [cyclesUntil_succ, hcount, Nat.lt_irrefl, decide_false, Bool.false_eq_true, if_false]
      rw [cyclesUntil_earlier]
      refine ⟨?_, hrest.2⟩
      simp [hrest.1]

/-- **A line that is not reached is not serviced**, and nothing happens to it, by induction on the
budget. A cycle leaves the line alone, and brings it to no place that it could not be reached at. -/
theorem cyclesUntil_of_missed (acknowledged : Bool) (context : Nat) {budget : Nat}
    (hmissed : ∀ k ≤ budget, ¬ c.table.ReachedAt acknowledged threshold line k)
    (hline : line < c.record.counts.size) (hbefore : c.record.count line = before) :
    let loop := cyclesUntil (.plain acknowledged) context threshold
      (fun _ d => before < d.record.count line) budget [] c
    loop.1.length = budget ∧ loop.2.record.count line = before ∧
      loop.2.table.lines[line]? = c.table.lines[line]? := by
  induction budget generalizing c with
  | zero => exact ⟨rfl, hbefore, rfl⟩
  | succ budget ih =>
    obtain ⟨hcount, hsame, hnext⟩ :
        (cycle (.plain acknowledged) context threshold c).2.record.count line = before ∧
        (cycle (.plain acknowledged) context threshold c).2.table.lines[line]? =
          c.table.lines[line]? ∧
        ∀ k ≤ budget, ¬ (cycle (.plain acknowledged) context threshold c).2.table.ReachedAt
          acknowledged threshold line k := by
      cases hq : c.table.queue threshold with
      | nil =>
        rw [cycle_of_queue_nil _ context hq]
        exact ⟨hbefore, rfl, fun k _ => LineTable.not_reachedAt_of_nil hq⟩
      | cons r rest =>
        have hne : r.line ≠ line := by
          rintro rfl
          exact hmissed 1 (Nat.le_add_left 1 budget) (LineTable.reachedAt_one hq)
        refine ⟨?_, ?_, fun k hk hreached => hmissed (k + 1) (Nat.succ_le_succ hk) ?_⟩
        · rw [count_cycle_of_queue_cons _ context hq hline, if_neg hne, hbefore]
        · rw [getElem?_cycle_plain acknowledged context hq]
          simp [hne]
        · exact LineTable.reachedAt_succ hq hne (queue_cycle_plain acknowledged context hq)
            (givesWay_cycle_plain acknowledged context threshold c) hreached
    have hrest := ih hnext ((size_counts_cycle ..).symm ▸ hline) hcount
    simp only [cyclesUntil_succ, hcount, Nat.lt_irrefl, decide_false, Bool.false_eq_true, if_false]
    rw [cyclesUntil_earlier]
    refine ⟨?_, hrest.2.1, hrest.2.2.trans hsame⟩
    simp [hrest.1]

/-! ## Waiting -/

/-- With line and context at hand a wait is its loop. -/
theorem awaitService_eq_loop (h : Handler σ) (hline : line < c.table.size)
    (hg : c.thresholds.get context = .ok threshold) (maxPolls : Nat) :
    let loop := cyclesUntil h context threshold
      (fun _ d => c.record.count line < d.record.count line) maxPolls [] c
    c.awaitService h context line maxPolls =
      (if c.record.count line < loop.2.record.count line then .ok loop.1.length
        else .error (.timeout line maxPolls), loop.2) := by
  have hl : c.table.line line = .ok c.table.lines[line] :=
    LineTable.line_eq_ok_iff.mpr (Array.getElem?_eq_getElem hline)
  rw [awaitService, hl, hg]
  dsimp only
  split <;> rfl

/-- A wait for a line that is reached within the budget ends when it is reached. -/
theorem awaitService_of_reached {acknowledged : Bool} {k maxPolls : Nat}
    (hg : c.thresholds.get context = .ok threshold) (hline : line < c.table.size)
    (hcounts : line < c.record.counts.size)
    (hreached : c.table.ReachedAt acknowledged threshold line k) (hk : k ≤ maxPolls) :
    let result := c.awaitService (.plain acknowledged) context line maxPolls
    result.1 = .ok k ∧ result.2.table.now = c.table.now + k := by
  obtain ⟨ahead, r, behind, hq, rfl, rfl, hways⟩ := hreached
  obtain ⟨hlength, hserved⟩ := cyclesUntil_of_ahead acknowledged context hq hways hk hcounts rfl
  rw [awaitService_eq_loop _ hline hg]
  dsimp only
  rw [if_pos hserved, now_cyclesUntil, hlength]
  exact ⟨rfl, rfl⟩

/-- A wait for a line that is not reached within the budget runs out of time. -/
theorem awaitService_of_missed {acknowledged : Bool} {maxPolls : Nat}
    (hg : c.thresholds.get context = .ok threshold) (hline : line < c.table.size)
    (hcounts : line < c.record.counts.size)
    (hmissed : ∀ k ≤ maxPolls, ¬ c.table.ReachedAt acknowledged threshold line k) :
    let result := c.awaitService (.plain acknowledged) context line maxPolls
    result.1 = .error (.timeout line maxPolls) ∧ result.2.table.now = c.table.now + maxPolls ∧
      result.2.table.lines[line]? = c.table.lines[line]? := by
  obtain ⟨hlength, hcount, hsame⟩ := cyclesUntil_of_missed acknowledged context hmissed hcounts rfl
  rw [awaitService_eq_loop _ hline hg]
  dsimp only
  rw [if_neg (Nat.not_lt.mpr (Nat.le_of_eq hcount)), now_cyclesUntil, hlength]
  exact ⟨rfl, rfl, hsame⟩

/-- **Waiting in closed form.** Let a controller be reached in any way under a handler that does
nothing but, perhaps, acknowledge, and let a line be awaited on a context. In the queue of the
context stand the lines that are enabled and pending and that its threshold does not block, in the
order of priority and line number. If the line stands there at a place that the budget covers, and
all ahead of it are edge lines or deliveries are acknowledged, then the wait takes as many polls as
the place tells. In every other case the wait uses up its budget and is given up, and nothing has
happened to the line. -/
theorem awaitService_plain (acknowledged : Bool) (g : Geometry) (memory : σ) (ops : List Operation)
    {context line : Nat} (hcontext : context < g.contexts) (hline : line < g.lines)
    (maxPolls : Nat) :
    let h : Handler σ := .plain acknowledged
    let c := ((ofGeometry g memory).run h ops).2
    let after := (c.awaitService h context line maxPolls).2
    ∃ threshold, c.thresholds.get context = .ok threshold ∧
      let queue := c.table.queue threshold
      (∀ r, r ∈ queue ↔ ∃ l, c.table.lines[r.line]? = some l ∧ l.enabled = true ∧
        l.pending = true ∧ blocks threshold l.priority = false ∧ l.priority = r.priority) ∧
      queue.Pairwise Request.precedes ∧
      (∀ k ≤ maxPolls, c.table.ReachedAt acknowledged threshold line k →
        (c.awaitService h context line maxPolls).1 = .ok k ∧
          after.table.now = c.table.now + k) ∧
      ((∀ k ≤ maxPolls, ¬ c.table.ReachedAt acknowledged threshold line k) →
        (c.awaitService h context line maxPolls).1 = .error (.timeout line maxPolls) ∧
          after.table.now = c.table.now + maxPolls ∧
          after.table.lines[line]? = c.table.lines[line]?) := by
  intro h c after
  have hcourse := course_run h (ofGeometry g memory) ops
  have hlines : line < c.table.size := by
    rw [hcourse.table, LineTable.size_replay]
    exact (LineTable.size_ofSize g.lines g.priorityBits).symm ▸ hline
  have hcounts : line < c.record.counts.size := by
    rw [size_counts_run g memory h ops]
    exact hline
  have hcontexts : context < c.thresholds.size := by
    rw [hcourse.sizes.2]
    exact (Thresholds.size_ofSize g.contexts).symm ▸ hcontext
  have hg : c.thresholds.get context = .ok c.thresholds.levels[context] :=
    Thresholds.get_eq_ok_iff.mpr (Array.getElem?_eq_getElem hcontexts)
  exact ⟨_, hg, fun r => LineTable.mem_queue_iff, LineTable.pairwise_queue c.table _,
    fun k hk hreached => awaitService_of_reached hg hlines hcounts hreached hk,
    fun hmissed => awaitService_of_missed hg hlines hcounts hmissed⟩

/-- A level line stands between two edge lines and a third. Acknowledged, all four are serviced in
turn, and the last waits for four polls; otherwise it is not reached at all. -/
theorem awaitService_plain_of_starved :
    let g : Geometry := { lines := 4 }
    let raised (line : Nat) (priority : UInt8) (trigger : Trigger) : List Operation :=
      [.access (.command (.configure line priority ⟨trigger, .positive⟩)),
        .access (.command (.enable line)), .access (.command (.setPending line))]
    let ops := raised 0 5 .edge ++ raised 1 2 .edge ++ raised 2 5 .level ++ raised 3 6 .edge
    let c (acknowledged : Bool) := ((ofGeometry g ()).run (.plain acknowledged) ops).2
    0 < g.contexts ∧ 3 < g.lines ∧
      (∃ threshold, (c true).table.ReachedAt true threshold 3 4) ∧
      ∃ threshold, ∀ k ≤ 9, ¬ (c false).table.ReachedAt false threshold 3 k := by
  intro g raised ops c
  have hcontext : 0 < g.contexts := by decide
  have hline : 3 < g.lines := by decide
  refine ⟨hcontext, hline, ?_, ?_⟩
  · obtain ⟨threshold, -, -, -, hreached, hmissed⟩ :=
      awaitService_plain true g () ops hcontext hline 4
    have hok : ((c true).awaitService (.plain true) 0 3 4).1 = .ok 4 := by decide +kernel
    refine ⟨threshold, by_contra fun hnot => ?_⟩
    have htimeout := (hmissed fun k hk hk' => hnot ?_).1
    · cases hok.symm.trans htimeout
    · cases Except.ok.inj (hok.symm.trans (hreached k hk hk').1)
      exact hk'
  · obtain ⟨threshold, -, -, -, hreached, -⟩ :=
      awaitService_plain false g () ops hcontext hline 9
    have htimeout : ((c false).awaitService (.plain false) 0 3 9).1 = .error (.timeout 3 9) := by
      decide +kernel
    refine ⟨threshold, fun k hk hk' => ?_⟩
    cases htimeout.symm.trans (hreached k hk hk').1

end Controller

end Irq
