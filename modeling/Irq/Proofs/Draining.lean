import Irq.Proofs.ContextQueue

/-!
# Irq.Proofs.Draining

What draining a context comes to when nothing is acknowledged. The queue of the context begins with
requests of edge lines, and each of them is used up by its service; behind them may stand the request
of a level line, which no service removes. So a drain services the edge lines at the front in their
order and then, for as long as its budget lasts, the first level line (`drained`). The induction is
on the budget, and each of its steps asks what stands at the head of the queue.
-/

namespace Irq

namespace LineTable

/-- The requests of edge lines at the front of a context's queue. -/
def edgeFront (t : LineTable) (threshold : UInt8) : List Request :=
  (t.queue threshold).takeWhile fun r => t.isTriggered r.line .edge

/-- The first request of a level line in a context's queue. -/
def firstLevel? (t : LineTable) (threshold : UInt8) : Option Request :=
  (t.queue threshold).find? fun r => t.isTriggered r.line .level

/-- The requests that a drain services: those at the front, and behind them the first level line's
again and again. -/
def drained (t : LineTable) (threshold : UInt8) (budget : Nat) : List Request :=
  match t.firstLevel? threshold with
  | none => (t.edgeFront threshold).take budget
  | some r =>
    let front := t.edgeFront threshold
    front.take budget ++ List.replicate (budget - front.length) r

/-- How many cycles a drain takes. The last one finds nothing to service, unless the budget is used
up before. -/
def drainCycles (t : LineTable) (threshold : UInt8) (budget : Nat) : Nat :=
  match t.firstLevel? threshold with
  | none => min budget ((t.edgeFront threshold).length + 1)
  | some _ => budget

/-- Whether a drain leaves nothing to service. -/
def drainsAll (t : LineTable) (threshold : UInt8) (budget : Nat) : Bool :=
  (t.firstLevel? threshold).isNone && decide ((t.edgeFront threshold).length ≤ budget)

variable {t t' : LineTable} {threshold : UInt8} {r : Request} {rest : List Request} {budget : Nat}

/-! ## The three cases of the head -/

/-- An empty queue has neither front nor first level line. -/
theorem parts_of_nil (hq : t.queue threshold = []) :
    t.edgeFront threshold = [] ∧ t.firstLevel? threshold = none := by
  simp [edgeFront, firstLevel?, hq]

/-- An edge line at the head is the first of the front, and the rest is that of the queue behind
it. -/
theorem parts_of_edge (hq : t.queue threshold = r :: rest)
    (hedge : t.isTriggered r.line .edge = true) (hq' : t'.queue threshold = rest)
    (htriggers : ∀ line trigger, t'.isTriggered line trigger = t.isTriggered line trigger) :
    t.edgeFront threshold = r :: t'.edgeFront threshold ∧
      t.firstLevel? threshold = t'.firstLevel? threshold := by
  have hlevel := isTriggered_level (hq ▸ List.mem_cons_self : r ∈ t.queue threshold)
  simp [edgeFront, firstLevel?, hq, hq', htriggers, hlevel, hedge]

/-- A level line at the head is all that is serviced. -/
theorem parts_of_level (hq : t.queue threshold = r :: rest)
    (hedge : t.isTriggered r.line .edge = false) :
    t.edgeFront threshold = [] ∧ t.firstLevel? threshold = some r := by
  have hlevel := isTriggered_level (hq ▸ List.mem_cons_self : r ∈ t.queue threshold)
  simp [edgeFront, firstLevel?, hq, hlevel, hedge]

/-- With a level line at the head, the whole budget is spent on it. -/
theorem drained_of_level (hq : t.queue threshold = r :: rest)
    (hedge : t.isTriggered r.line .edge = false) (budget : Nat) :
    t.drained threshold budget = List.replicate budget r := by
  simp [drained, parts_of_level hq hedge]

/-- A level line at the head is serviced by every drain that has a budget at all. -/
theorem eq_zero_of_not_drained (hq : t.queue threshold = r :: rest)
    (hedge : t.isTriggered r.line .edge = false)
    (hnot : r.line ∉ (t.drained threshold budget).map Request.line) : budget = 0 := by
  rw [drained_of_level hq hedge] at hnot
  simpa using hnot

/-- **One service, and then a drain with one cycle less.** -/
theorem drained_succ (hq : t.queue threshold = r :: rest)
    (hq' : t'.queue threshold = if t.isTriggered r.line .edge then rest else r :: rest)
    (htriggers : ∀ line trigger, t'.isTriggered line trigger = t.isTriggered line trigger)
    (budget : Nat) :
    t.drained threshold (budget + 1) = r :: t'.drained threshold budget ∧
      t.drainCycles threshold (budget + 1) = t'.drainCycles threshold budget + 1 ∧
      t.drainsAll threshold (budget + 1) = t'.drainsAll threshold budget := by
  cases hedge : t.isTriggered r.line .edge with
  | true =>
    rw [hedge, if_pos rfl] at hq'
    obtain ⟨hfront, hlevel⟩ := parts_of_edge hq hedge hq' htriggers
    refine ⟨?_, ?_, ?_⟩
    · unfold drained
      rw [hfront, hlevel]
      cases t'.firstLevel? threshold with
      | none => rfl
      | some r' => simp
    · unfold drainCycles
      rw [hfront, hlevel]
      cases t'.firstLevel? threshold with
      | none => simp
      | some r' => rfl
    · simp [drainsAll, hfront, hlevel]
  | false =>
    rw [hedge, if_neg Bool.false_ne_true] at hq'
    have hedge' : t'.isTriggered r.line .edge = false := (htriggers _ _).trans hedge
    rw [drained_of_level hq hedge, drained_of_level hq' hedge']
    simp [drainCycles, drainsAll, parts_of_level hq hedge, parts_of_level hq' hedge',
      List.replicate_succ]

@[simp] theorem drained_zero (t : LineTable) (threshold : UInt8) : t.drained threshold 0 = [] := by
  unfold drained
  cases t.firstLevel? threshold <;> simp

@[simp] theorem drainCycles_zero (t : LineTable) (threshold : UInt8) :
    t.drainCycles threshold 0 = 0 := by
  unfold drainCycles
  cases t.firstLevel? threshold <;> simp

/-- With no cycle to run, nothing is left if nothing was there. -/
theorem drainsAll_zero (t : LineTable) (threshold : UInt8) :
    t.drainsAll threshold 0 = (t.winner threshold).isNone := by
  rw [winner_eq_head?]
  cases hq : t.queue threshold with
  | nil => simp [drainsAll, parts_of_nil hq]
  | cons r rest =>
    cases hedge : t.isTriggered r.line .edge with
    | true => simp [drainsAll, edgeFront, hq, hedge]
    | false => simp [drainsAll, parts_of_level hq hedge]

/-- Only what stands in the queue is serviced. -/
theorem mem_queue_of_drained (hr : r ∈ t.drained threshold budget) : r ∈ t.queue threshold := by
  have hfront : t.edgeFront threshold ⊆ t.queue threshold := (List.takeWhile_sublist _).subset
  unfold drained at hr
  cases hlevel : t.firstLevel? threshold with
  | none =>
    rw [hlevel] at hr
    exact hfront (List.mem_of_mem_take hr)
  | some r' =>
    rw [hlevel] at hr
    rcases List.mem_append.mp hr with hr | hr
    · exact hfront (List.mem_of_mem_take hr)
    · rw [List.eq_of_mem_replicate hr]
      exact List.mem_of_find?_eq_some hlevel

end LineTable

/-- What a drain with the given budget comes to: the outcomes of its cycles, and the controller that
it leaves behind. -/
structure Controller.Drains {σ : Type} (context : Nat) (threshold : UInt8) (budget : Nat)
    (c : Controller σ) (outcomes : List (Option Delivery)) (after : Controller σ) : Prop where
  serviced : outcomes.filterMap id = (c.table.drained threshold budget).map (Request.on · context)
  cycles : after.table.now = c.table.now + c.table.drainCycles threshold budget
  quiescent : (after.table.winner threshold).isNone = c.table.drainsAll threshold budget
  line : ∀ i, after.table.lines[i]? = c.table.lines[i]?.map fun l =>
    if i ∈ (c.table.drained threshold budget).map Request.line then l.serve after.table.now else l

namespace Controller

variable {σ : Type} {context : Nat} {threshold : UInt8} {c c' after : Controller σ} {r : Request}
  {rest : List Request} {budget : Nat}

/-- **One service more in front of a drain.** A level line at the head stays there, so it is not
serviced again only for want of budget. -/
theorem Drains.cons {outcomes : List (Option Delivery)} (hq : c.table.queue threshold = r :: rest)
    (hc' : (cycle .passive context threshold c).2 = c')
    (hdrains : Drains context threshold budget c' outcomes after) :
    Drains context threshold (budget + 1) c (some (r.on context) :: outcomes) after := by
  have hnow : c'.table.now = c.table.now + 1 := hc' ▸ now_cycle .passive context threshold c
  have hnext : c'.table.queue threshold =
      if c.table.isTriggered r.line .edge then rest else r :: rest :=
    hc' ▸ queue_cycle_plain false context hq
  have hlines (i : Nat) : c'.table.lines[i]? =
      c.table.lines[i]?.map fun l => if r.line = i then l.serve (c.table.now + 1) else l :=
    hc' ▸ getElem?_cycle_plain false context hq i
  have htriggers : ∀ line trigger,
      c'.table.isTriggered line trigger = c.table.isTriggered line trigger :=
    hc' ▸ isTriggered_cycle_plain false context threshold c
  obtain ⟨hserved, hcycles, hall⟩ := LineTable.drained_succ hq hnext htriggers budget
  constructor
  case serviced =>
    rw [hserved, List.map_cons, ← hdrains.serviced]
    rfl
  case cycles =>
    rw [hdrains.cycles, hnow, hcycles]
    omega
  case quiescent => rw [hdrains.quiescent, hall]
  case line =>
    intro i
    rw [hdrains.line, hlines, hserved, Option.map_map, List.map_cons]
    cases hl : c.table.lines[i]? with
    | none => rfl
    | some l =>
      rw [Option.map_some, Option.map_some, Function.comp_apply]
      by_cases hi : r.line = i
      · by_cases hagain : i ∈ (c'.table.drained threshold budget).map Request.line
        · simp [hi, hagain, Line.serve_serve]
        · have hsame : l.serve (c.table.now + 1) = l.serve after.table.now := by
            cases htrigger : l.attributes.trigger with
            | edge => simp [Line.serve, htrigger]
            | level =>
              have hedge : c.table.isTriggered r.line .edge = false := by
                simp [hi, LineTable.isTriggered_eq hl, htrigger]
              have hstays : c'.table.queue threshold = r :: rest := by
                rw [hnext, hedge, if_neg Bool.false_ne_true]
              have hbudget : budget = 0 :=
                LineTable.eq_zero_of_not_drained hstays ((htriggers _ _).trans hedge) (hi ▸ hagain)
              rw [hdrains.cycles, hbudget, hnow, LineTable.drainCycles_zero, Nat.add_zero]
          simp [hi, hagain, hsame]
      · simp [hi, Ne.symm hi]

/-- **What a drain comes to**, by induction on its budget and by the head of the queue. -/
theorem drains_cyclesUntil (context : Nat) (threshold : UInt8) (budget : Nat)
    (c : Controller σ) :
    let loop := cyclesUntil .passive context threshold (fun outcome _ => outcome.isNone) budget [] c
    Drains context threshold budget c loop.1 loop.2 := by
  induction budget generalizing c with
  | zero =>
    constructor
    case serviced => simp [cyclesUntil]
    case cycles => simp [cyclesUntil]
    case quiescent => exact (LineTable.drainsAll_zero c.table threshold).symm
    case line => simp [cyclesUntil]
  | succ budget ih =>
    cases hq : c.table.queue threshold with
    | nil =>
      have hcycle := cycle_of_queue_nil .passive context hq
      have hparts := LineTable.parts_of_nil hq
      have hserved : c.table.drained threshold (budget + 1) = [] := by
        simp [LineTable.drained, hparts]
      rw [cyclesUntil_succ, hcycle]
      constructor
      case serviced => simp [hserved]
      case cycles => simp [LineTable.drainCycles, hparts, tick, LineTable.tick]
      case quiescent =>
        have hidle : c.tick.table.winner threshold = none := by
          rw [tick, LineTable.winner_tick, LineTable.winner_eq_head?, hq, List.head?_nil]
        simp [LineTable.drainsAll, hparts, hidle]
      case line => simp [hserved, tick, LineTable.tick]
    | cons r rest =>
      have hcycle := cycle_of_queue_cons .passive context hq
      rw [cyclesUntil_succ, hcycle]
      dsimp only
      rw [if_neg (by simp), cyclesUntil_earlier]
      exact (ih _).cons hq (congrArg Prod.snd hcycle)

/-- A drain changes the lines that it services by these services, and no line else. -/
theorem Drains.bits {outcomes : List (Option Delivery)} {i : Nat} {l : Line}
    (hdrains : Drains context threshold budget c outcomes after)
    (hl : c.table.lines[i]? = some l) :
    ∃ l', after.table.lines[i]? = some l' ∧ l'.priority = l.priority ∧
      l'.attributes = l.attributes ∧ l'.enabled = l.enabled ∧ l'.input = l.input ∧
      (l'.pending = true → l.pending = true) ∧
      (l.pending = true ∧ l'.pending = false ↔
        i ∈ (c.table.drained threshold budget).map Request.line ∧ l.attributes.trigger = .edge) := by
  have hafter := hdrains.line i
  rw [hl, Option.map_some] at hafter
  refine ⟨_, hafter, ?_⟩
  by_cases hi : i ∈ (c.table.drained threshold budget).map Request.line
  · obtain ⟨r, hr, rfl⟩ := List.mem_map.mp hi
    obtain ⟨l₀, hl₀, -, hpending, -⟩ :=
      LineTable.mem_queue_iff.mp (LineTable.mem_queue_of_drained hr)
    rw [hl, Option.some.injEq] at hl₀
    subst hl₀
    rw [if_pos hi]
    cases htrigger : l.attributes.trigger <;> simp [Line.pending_serve, hpending, htrigger, hi]
  · simp [hi]

/-- **Draining in closed form.** Let nothing be acknowledged, and let a context be drained. In its
queue stand the lines that are enabled and pending and that its threshold does not block, in the
order of priority and line number. Of these the edge lines at the front are serviced, each once and
in their order, and behind them the first level line for as long as the budget lasts; each service
is a delivery to the context with the priority of its line. The drain reports that nothing is left
exactly if there is no level line and the budget covers the front. What has lost its pending bit are
the edge lines serviced; of all lines nothing else has changed but stamps. The clock has advanced by
the budget, or without a level line by one more than the front is long, if that is less. -/
theorem drain_passive {c : Controller σ} {context : Nat} {threshold : UInt8}
    (hg : c.thresholds.get context = .ok threshold) (maxPolls : Nat) :
    let queue := c.table.queue threshold
    let served := c.table.drained threshold maxPolls
    let after := (c.drain .passive context maxPolls).2
    (∀ r, r ∈ queue ↔ ∃ l, c.table.lines[r.line]? = some l ∧ l.enabled = true ∧
      l.pending = true ∧ blocks threshold l.priority = false ∧ l.priority = r.priority) ∧
    queue.Pairwise Request.precedes ∧
    (c.drain .passive context maxPolls).1 = .ok
      ⟨served.map (Request.on · context), c.table.drainsAll threshold maxPolls⟩ ∧
    (∀ i l, c.table.lines[i]? = some l → ∃ l', after.table.lines[i]? = some l' ∧
      l'.priority = l.priority ∧ l'.attributes = l.attributes ∧ l'.enabled = l.enabled ∧
      l'.input = l.input ∧ (l'.pending = true → l.pending = true) ∧
      (l.pending = true ∧ l'.pending = false ↔
        i ∈ served.map Request.line ∧ l.attributes.trigger = .edge)) ∧
    after.table.now = c.table.now + c.table.drainCycles threshold maxPolls := by
  have hdrains := drains_cyclesUntil context threshold maxPolls c
  dsimp only
  rw [drain, hg]
  refine ⟨fun r => LineTable.mem_queue_iff, LineTable.pairwise_queue c.table threshold, ?_,
    fun i l hl => hdrains.bits hl, hdrains.cycles⟩
  rw [← hdrains.serviced, ← hdrains.quiescent]

/-- Two edge lines stand before a level line and a third edge line behind it. With a budget of four
the level line is serviced twice, and the line behind it never. -/
theorem drain_passive_of_starved :
    let raised (line : Nat) (priority : UInt8) (trigger : Trigger) : List Operation :=
      [.access (.command (.configure line priority ⟨trigger, .positive⟩)),
        .access (.command (.enable line)), .access (.command (.setPending line))]
    let c := ((ofGeometry { lines := 4 } ()).run .passive
      (raised 0 5 .edge ++ raised 1 2 .edge ++ raised 2 5 .level ++ raised 3 6 .edge)).2
    let deliveries : List Delivery := [⟨1, 2, 0⟩, ⟨0, 5, 0⟩, ⟨2, 5, 0⟩, ⟨2, 5, 0⟩]
    c.thresholds.get 0 = .ok 0 ∧ (c.drain .passive 0 4).1 = .ok ⟨deliveries, false⟩ ∧
      (c.table.drained 0 4).map (Request.on · 0) = deliveries ∧ c.table.drainsAll 0 4 = false := by
  intro raised c deliveries
  have hg : c.thresholds.get 0 = .ok 0 := by decide +kernel
  have hrun : (c.drain .passive 0 4).1 = .ok ⟨deliveries, false⟩ := by decide +kernel
  obtain ⟨-, -, hresult, -⟩ := drain_passive hg 4
  have hsame := Except.ok.inj (hresult.symm.trans hrun)
  exact ⟨hg, hrun, congrArg DrainOutcome.serviced hsame, congrArg DrainOutcome.quiescent hsame⟩

end Controller

end Irq
