import Irq.Proofs.Tally
import Irq.Queue
import Mathlib.Data.List.Sort

/-!
# Irq.Proofs.SharedQueue

Contexts that poll by turns share one queue. It holds the requests of all enabled and pending lines,
whatever the thresholds, which is the queue of threshold 0. A threshold decides whether its head may
be serviced and never which line is serviced instead (`winner_threshold`); where a service uses its
request up, it takes the head and leaves the tail (`queue_of_lowered`). So whoever polls, and in
whatever order, the lines are serviced in the order of the queue.
-/

namespace Irq

/-- The request that a delivery has serviced. -/
def Delivery.request (d : Delivery) : Request := ⟨d.line, d.priority⟩

/-- Whether a threshold lets a request pass. -/
def Request.passes (threshold : UInt8) (r : Request) : Bool := !blocks threshold r.priority

/-- Whether every service uses its request up: level lines are acknowledged, or there are none among
the enabled and pending lines. -/
def Handler.UsesUp {σ : Type} (h : Handler σ) (t : LineTable) : Prop :=
  (h = .passive ∧ ∀ (i : Nat) (l : Line), t.lines[i]? = some l → l.isActive = true →
    l.attributes.trigger = .edge) ∨
  h = .acknowledging .passive

instance : Std.Asymm Request.precedes where
  asymm a b hab := by
    rw [Request.precedes_iff] at hab ⊢
    omega

/-- Where nothing is blocked every active line competes. -/
theorem Line.isEligible_zero (l : Line) : l.isEligible 0 = l.isActive := by
  simp [isEligible]

namespace LineTable

/-! ## A threshold decides whether, never which -/

/-- The request of a line under a threshold is the one without it, if it passes. -/
theorem request?_threshold (t : LineTable) (threshold : UInt8) (id : Nat) :
    t.request? threshold id = (t.request? 0 id).filter (Request.passes threshold) := by
  unfold request?
  cases t.lines[id]? with
  | none => rfl
  | some l =>
    dsimp only
    rw [Line.isEligible_zero]
    by_cases hactive : l.isActive = true <;>
      simp [Line.isEligible, hactive, Option.filter_some, Request.passes]

/-- What a threshold lets pass of the queue keeps its order. -/
theorem queue_threshold (t : LineTable) (threshold : UInt8) :
    t.queue threshold = (t.queue 0).filter (Request.passes threshold) := by
  refine List.Pairwise.eq_of_mem_iff (pairwise_queue t threshold) ((pairwise_queue t 0).filter _) ?_
  intro r
  rw [List.mem_filter, mem_queue, mem_queue, request?_threshold, Option.filter_eq_some_iff]

/-- **A threshold decides whether a line is serviced, never which one.** What comes behind a blocked
request is no more urgent, so it is blocked as well. -/
theorem winner_threshold (t : LineTable) (threshold : UInt8) :
    t.winner threshold = (t.queue 0).head?.filter (Request.passes threshold) := by
  rw [winner_eq_head?, queue_threshold]
  have hsorted := pairwise_queue t 0
  cases hq : t.queue 0 with
  | nil => rfl
  | cons r rest =>
    rw [hq, List.pairwise_cons] at hsorted
    rw [List.filter_cons, List.head?_cons, Option.filter_some]
    cases hb : blocks threshold r.priority with
    | false => simp [Request.passes, hb]
    | true =>
      have hrest : rest.filter (Request.passes threshold) = [] := by
        rw [List.filter_eq_nil_iff]
        intro r' hr'
        have hle : r.priority ≤ r'.priority := by
          have hprec := hsorted.1 r' hr'
          rw [Request.precedes_iff] at hprec
          rw [UInt8.le_iff_toNat_le]
          omega
        simp [Request.passes, blocks_mono hle hb]
      simp [Request.passes, hb, hrest]

/-! ## A service takes the head of the queue -/

theorem queue_congr {t t' : LineTable} (h : t.lines = t'.lines) (threshold : UInt8) :
    t.queue threshold = t'.queue threshold := by
  have hrequest : t.request? threshold = t'.request? threshold := by
    funext id
    simp only [request?, h]
  simp only [queue, requests, size, h, hrequest]

/-- No line stands in the queue twice. -/
theorem nodup_line_queue (t : LineTable) (threshold : UInt8) :
    ((t.queue threshold).map Request.line).Nodup := by
  rw [List.Nodup, List.pairwise_map]
  exact ((List.mergeSort_perm (t.requests threshold) Request.le).pairwise_iff
    fun h => Ne.symm h).mpr (pairwise_line_ne_requests t threshold)

/-- Threshold 0 lets every enabled and pending line stand in the queue. -/
theorem mem_queue_zero {t : LineTable} {r : Request} :
    r ∈ t.queue 0 ↔
      ∃ l, t.lines[r.line]? = some l ∧ l.isActive = true ∧ l.priority = r.priority := by
  rw [mem_queue, request?_eq_some_iff]
  constructor
  · rintro ⟨l, hl, heligible, hr⟩
    rw [Line.isEligible_zero] at heligible
    exact ⟨l, hl, heligible, (congrArg Request.priority hr).symm⟩
  · rintro ⟨l, hl, hactive, hpriority⟩
    refine ⟨l, hl, ?_, ?_⟩
    · rwa [Line.isEligible_zero]
    · rw [hpriority]

/-- With the request at its head withdrawn, the queue is what has stood behind it. -/
theorem queue_of_lowered {t t' : LineTable} {r : Request} {rest : List Request}
    (hq : t.queue 0 = r :: rest)
    (ht' : ∀ i, t'.lines[i]? = t.lines[i]?.map fun l => if r.line = i then l.lower else l) :
    t'.queue 0 = rest := by
  have hsorted := pairwise_queue t 0
  rw [hq] at hsorted
  refine List.Pairwise.eq_of_mem_iff (pairwise_queue t' 0) hsorted.tail ?_
  intro r'
  have hrequest : t'.request? 0 r'.line =
      if r.line = r'.line then none else t.request? 0 r'.line := by
    unfold request?
    rw [ht']
    cases t.lines[r'.line]? with
    | none => simp
    | some l => by_cases hr : r.line = r'.line <;> simp [hr, Line.isEligible_zero, Line.isActive]
  have hmem : r' ∈ t.queue 0 ↔ r' = r ∨ r' ∈ rest := by rw [hq, List.mem_cons]
  rw [mem_queue, hrequest]
  rw [mem_queue] at hmem
  have hr : t.request? 0 r.line = some r := mem_queue.mp (hq ▸ List.mem_cons_self)
  by_cases hline : r.line = r'.line
  · -- The head is the only request of its line.
    rw [if_pos hline]
    refine iff_of_false (by simp) fun hrest => ?_
    have hsame : t.request? 0 r'.line = some r' := hmem.mpr (.inr hrest)
    rw [← hline, hr, Option.some.injEq] at hsame
    have hprec := List.rel_of_pairwise_cons hsorted hrest
    rw [hsame] at hprec
    exact irrefl r' hprec
  · rw [if_neg hline, hmem]
    have hne : r' ≠ r := fun h => hline (h ▸ rfl)
    simp [hne]

end LineTable

namespace Controller

variable {σ : Type} {h : Handler σ} {c : Controller σ}

/-- Without a handler that does anything a line is left as its service leaves it. -/
theorem getElem?_serve_passive (c : Controller σ) (d : Delivery) (i : Nat) :
    (c.serve .passive d).table.lines[i]? =
      c.table.lines[i]?.map fun l => if d.line = i then l.serve c.table.now else l :=
  LineTable.getElem?_happen c.table (.delivery d) i

/-- An acknowledged service comes to the withdrawal of its request. -/
theorem getElem?_serve_acknowledging (c : Controller σ) (d : Delivery) (i : Nat) :
    (c.serve (.acknowledging .passive) d).table.lines[i]? =
      c.table.lines[i]?.map fun l => if d.line = i then l.lower else l := by
  show ((c.serve .passive d).table.apply (.clearPending d.line)).lines[i]? = _
  rw [LineTable.getElem?_apply, getElem?_serve_passive, Option.map_map]
  congr 1
  funext l
  by_cases hi : d.line = i
  · simp [hi, Command.concerns, Command.line?, LineTable.effect, Line.lower_serve]
  · simp [hi, Command.concerns, Command.line?]

/-- Under such a handler a service comes to the withdrawal of its request. -/
theorem getElem?_serve_of_usesUp (hu : h.UsesUp c.table) {d : Delivery} {l : Line}
    (hl : c.table.lines[d.line]? = some l) (hactive : l.isActive = true) (i : Nat) :
    (c.serve h d).table.lines[i]? =
      c.table.lines[i]?.map fun l => if d.line = i then l.lower else l := by
  rcases hu with ⟨rfl, hedge⟩ | rfl
  · rw [getElem?_serve_passive]
    by_cases hi : d.line = i
    · rw [← hi, hl]
      simp [Line.serve, hedge d.line l hl hactive]
    · simp [hi]
  · exact getElem?_serve_acknowledging c d i

/-- **What a poll makes of the queue**: it services the head if the threshold lets it pass, and else
nothing. -/
theorem cycle_of_usesUp (hu : h.UsesUp c.table) (context : Nat) (threshold : UInt8) :
    let next := (c.table.queue 0).head?.filter (Request.passes threshold)
    (cycle h context threshold c).1 = next.map (Request.on · context) ∧
      next.toList ++ (cycle h context threshold c).2.table.queue 0 = c.table.queue 0 ∧
      h.UsesUp (cycle h context threshold c).2.table := by
  intro next
  have hwinner : c.tick.table.winner threshold = next :=
    (LineTable.winner_tick c.table threshold).trans
      (LineTable.winner_threshold c.table threshold)
  unfold cycle
  rw [hwinner]
  cases hnext : next with
  | none => exact ⟨rfl, LineTable.queue_congr rfl 0, hu⟩
  | some r =>
    obtain ⟨hhead, -⟩ := Option.filter_eq_some_iff.mp hnext
    obtain ⟨rest, hq⟩ := List.head?_eq_some_iff.mp hhead
    have hr : c.table.request? 0 r.line = some r :=
      LineTable.mem_queue.mp (hq ▸ List.mem_cons_self)
    obtain ⟨l, hl, heligible, -⟩ := LineTable.request?_eq_some_iff.mp hr
    rw [Line.isEligible, Bool.and_eq_true] at heligible
    have hserved := getElem?_serve_of_usesUp (c := c.tick) (d := r.on context) hu hl heligible.1
    refine ⟨rfl, ?_, ?_⟩
    · rw [hq, Option.toList_some, List.singleton_append, List.cons.injEq]
      exact ⟨rfl, LineTable.queue_of_lowered hq hserved⟩
    · refine hu.imp_left fun hpassive => ⟨hpassive.1, fun i l' hl' hactive => ?_⟩
      change (c.tick.serve h (r.on context)).table.lines[i]? = some l' at hl'
      rw [hserved] at hl'
      obtain ⟨l, hl, rfl⟩ := Option.map_eq_some_iff.mp hl'
      by_cases hi : r.line = i
      · simp [Request.on, hi, Line.isActive] at hactive
      · simp only [Request.on, hi, if_false] at hactive ⊢
        exact hpassive.2 i l hl hactive

/-! ## Polls one after another -/

/-- A poll delivers what its cycle does. -/
theorem deliveries_poll (h : Handler σ) (c : Controller σ) {context : Nat} {threshold : UInt8}
    (hg : c.thresholds.get context = .ok threshold) :
    c.deliveries h [.poll context] = (cycle h context threshold c).1.toList := by
  rw [deliveries_singleton, ← delivered_cycleEvents]
  simp only [events, hg]

/-- What polls have serviced and what they have left in the queue is the queue that they found. -/
theorem served_append_queue (hu : h.UsesUp c.table) (contexts : List Nat) :
    (c.deliveries h (contexts.map .poll)).map Delivery.request ++
        (c.run h (contexts.map .poll)).2.table.queue 0 = c.table.queue 0 ∧
      h.UsesUp (c.run h (contexts.map .poll)).2.table ∧
      (c.run h (contexts.map .poll)).2.thresholds = c.thresholds := by
  induction contexts generalizing c with
  | nil => exact ⟨rfl, hu, rfl⟩
  | cons context contexts ih =>
    have hsplit := deliveries_append h c [.poll context] (contexts.map .poll)
    rw [List.singleton_append] at hsplit
    rw [List.map_cons, hsplit, run_cons, List.map_append, List.append_assoc]
    have hpoll : (c.deliveries h [.poll context]).map Delivery.request ++
        (c.step h (.poll context)).2.table.queue 0 = c.table.queue 0 ∧
        h.UsesUp (c.step h (.poll context)).2.table ∧
        (c.step h (.poll context)).2.thresholds = c.thresholds := by
      cases hg : c.thresholds.get context with
      | error e =>
        rw [deliveries_singleton]
        simp only [step, poll, events, hg]
        exact ⟨rfl, hu, trivial⟩
      | ok threshold =>
        obtain ⟨hfst, hqueue, hnext⟩ := cycle_of_usesUp hu context threshold
        rw [deliveries_poll h c hg, hfst]
        simp only [step, poll, hg]
        refine ⟨?_, hnext, thresholds_cycle h context threshold c⟩
        refine Eq.trans ?_ hqueue
        congr 1
        cases (c.table.queue 0).head?.filter (Request.passes threshold) <;> rfl
    obtain ⟨hserved, hnext, hthresholds⟩ := hpoll
    obtain ⟨hrest, hend, hthresholds'⟩ := ih hnext
    refine ⟨?_, hend, hthresholds'.trans hthresholds⟩
    rw [← hserved, ← hrest]
    rfl

/-- A poll answers with the head of the queue, if the threshold lets it pass. -/
theorem fst_poll_eq_head? (h : Handler σ) (c : Controller σ) {context : Nat} {threshold : UInt8}
    (hg : c.thresholds.get context = .ok threshold) :
    (c.poll h context).1 = .ok
      (((c.table.queue 0).head?.filter (Request.passes threshold)).map (Request.on · context)) := by
  rw [fst_poll, pendingRequest, hg, ← LineTable.winner_threshold]
  rfl

/-- **All contexts service the lines in one order.** Let the services use the requests up, and let
any contexts poll by turns. Before them stands the queue of all enabled and pending lines, in the
order of priority and line number. What they service together is the front of it, each line once;
and each poll is answered with the request that is next in it, and with none exactly if there is
none left or the threshold of the polling context blocks it. -/
theorem polls_share_queue (h : Handler σ) (c : Controller σ) (contexts : List Nat)
    (hu : h.UsesUp c.table) (hvalid : ∀ context ∈ contexts, context < c.thresholds.size) :
    let queue := c.table.queue 0
    let served (contexts : List Nat) :=
      (c.deliveries h (contexts.map .poll)).map Delivery.request
    (∀ r, r ∈ queue ↔
      ∃ l, c.table.lines[r.line]? = some l ∧ l.isActive = true ∧ l.priority = r.priority) ∧
      queue.Pairwise Request.precedes ∧
      served contexts <+: queue ∧ ((served contexts).map Request.line).Nodup ∧
      ∀ before context after, contexts = before ++ context :: after →
        ∃ threshold, c.thresholds.get context = .ok threshold ∧
          let next := queue[(served before).length]?
          let answer := ((c.run h (before.map .poll)).2.poll h context).1
          answer = .ok ((next.filter (Request.passes threshold)).map (Request.on · context)) ∧
            (answer = .ok none ↔
              next = none ∨ ∃ r, next = some r ∧ blocks threshold r.priority = true) := by
  intro queue served
  have hfront : served contexts <+: queue := ⟨_, (served_append_queue hu contexts).1⟩
  refine ⟨fun r => LineTable.mem_queue_zero, LineTable.pairwise_queue c.table 0, hfront,
    (LineTable.nodup_line_queue c.table 0).sublist (hfront.sublist.map _), ?_⟩
  intro before context after hsplit
  obtain ⟨hqueue, -, hthresholds⟩ := served_append_queue hu before
  have hlt : context < c.thresholds.levels.size :=
    hvalid context (hsplit ▸ List.mem_append_right _ List.mem_cons_self)
  let threshold := c.thresholds.levels[context]
  have hg : c.thresholds.get context = .ok threshold :=
    Thresholds.get_eq_ok_iff.mpr (Array.getElem?_eq_getElem hlt)
  refine ⟨threshold, hg, ?_⟩
  intro next answer
  have hnext : next = ((c.run h (before.map .poll)).2.table.queue 0).head? := by
    show (c.table.queue 0)[(served before).length]? = _
    rw [← hqueue, List.getElem?_append_right (Nat.le_refl _), Nat.sub_self,
      List.head?_eq_getElem?]
  have hanswer : answer = .ok
      ((next.filter (Request.passes threshold)).map (Request.on · context)) := by
    rw [hnext]
    exact fst_poll_eq_head? h _ (hthresholds ▸ hg)
  refine ⟨hanswer, ?_⟩
  rw [hanswer]
  cases next with
  | none => simp
  | some r => simp [Option.filter_some, Request.passes]

/-- A context that lets only priorities below 3 pass and one that lets all pass poll by turns, and
every line is level triggered. Each is serviced once, in the order of the queue. -/
theorem polls_share_queue_of_two :
    let h : Handler Unit := .acknowledging .passive
    let raised (line : Nat) (priority : UInt8) : List Operation :=
      [.access (.command (.configure line priority ⟨.level, .positive⟩)),
        .access (.command (.enable line)), .access (.command (.setPending line))]
    let c := ((ofGeometry { lines := 3, contexts := 2 } ()).run h
      (raised 0 5 ++ raised 1 2 ++ raised 2 5 ++ [.setThreshold 0 3])).2
    let contexts := [0, 0, 1, 0, 1, 1]
    h.UsesUp c.table ∧ (∀ context ∈ contexts, context < c.thresholds.size) ∧
      c.deliveries h (contexts.map .poll) = [⟨1, 2, 0⟩, ⟨0, 5, 1⟩, ⟨2, 5, 1⟩] ∧
      (c.deliveries h (contexts.map .poll)).map Delivery.request <+: c.table.queue 0 :=
  ⟨.inr rfl, by decide +kernel, by decide +kernel,
    (polls_share_queue _ _ _ (.inr rfl) (by decide +kernel)).2.2.1⟩

end Controller

end Irq
