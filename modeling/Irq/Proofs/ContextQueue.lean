import Irq.Proofs.SharedQueue

/-!
# Irq.Proofs.ContextQueue

The queue of one context holds the requests that its threshold lets pass, and every poll of the
context services its head. What becomes of the head is the matter of its line and of the handler: an
edge line's request is used up, and so is any that the handler acknowledges; that of a level line
stays where it is otherwise. So a poll either takes the head from the queue or leaves the queue as it
was (`queue_cycle_plain`), and the lines that are read as edge or level stay so.
-/

namespace Irq

/-- The handler that does nothing of its own but, if so told, acknowledges every delivery. -/
def Handler.plain {σ : Type} (acknowledged : Bool) : Handler σ :=
  if acknowledged then .acknowledging .passive else .passive

/-- What becomes of a line that is serviced at clock `now` under a plain handler. -/
def Line.settle (acknowledged : Bool) (now : Nat) (l : Line) : Line :=
  if acknowledged then l.lower else l.serve now

/-- Whether a request gives way to those behind it when it is serviced: that of an edge line does,
and one that is acknowledged. -/
def LineTable.givesWay (t : LineTable) (acknowledged : Bool) (r : Request) : Bool :=
  acknowledged || t.isTriggered r.line .edge

namespace Line

variable {acknowledged : Bool} {now : Nat} {l : Line}

@[simp] theorem attributes_settle : (l.settle acknowledged now).attributes = l.attributes := by
  cases acknowledged <;> simp [settle, lower]

/-- An edge line is left without a request. -/
theorem settle_of_edge (hl : l.attributes.trigger = .edge) :
    l.settle acknowledged now = l.lower := by
  cases acknowledged <;> simp [settle, serve, hl]

/-- A level line that is not acknowledged keeps its request, with a new stamp. -/
theorem settle_of_level (hl : l.attributes.trigger = .level) :
    l.settle false now = { l with since := some now } := by
  simp [settle, serve, hl]

end Line

namespace LineTable

variable {t t' : LineTable} {threshold : UInt8} {r : Request} {rest : List Request}

/-- **Who stands in the queue of a context**: the lines that are enabled and pending and that the
threshold does not block, with the priorities they have. -/
theorem mem_queue_iff :
    r ∈ t.queue threshold ↔ ∃ l, t.lines[r.line]? = some l ∧ l.enabled = true ∧
      l.pending = true ∧ blocks threshold l.priority = false ∧ l.priority = r.priority := by
  rw [queue_threshold, List.mem_filter, mem_queue_zero]
  constructor
  · rintro ⟨⟨l, hl, hactive, hpriority⟩, hpasses⟩
    rw [Line.isActive, Bool.and_eq_true] at hactive
    rw [Request.passes, Bool.not_eq_true', ← hpriority] at hpasses
    exact ⟨l, hl, hactive.1, hactive.2, hpasses, hpriority⟩
  · rintro ⟨l, hl, henabled, hpending, hpasses, hpriority⟩
    exact ⟨⟨l, hl, by simp [Line.isActive, henabled, hpending], hpriority⟩,
      by simp [Request.passes, ← hpriority, hpasses]⟩

/-- What stands in a queue belongs to an edge line or to a level line. -/
theorem isTriggered_level (hr : r ∈ t.queue threshold) :
    t.isTriggered r.line .level = !t.isTriggered r.line .edge := by
  obtain ⟨l, hl, -⟩ := mem_queue_iff.mp hr
  rw [isTriggered_eq hl, isTriggered_eq hl]
  cases l.attributes.trigger <;> rfl

/-- The head of a context's queue is the head of the queue that all contexts share. -/
theorem queue_zero_of_cons (hq : t.queue threshold = r :: rest) :
    ∃ rest₀, t.queue 0 = r :: rest₀ ∧ Request.passes threshold r = true ∧
      rest = rest₀.filter (Request.passes threshold) := by
  have hwinner := winner_threshold t threshold
  rw [winner_eq_head?, hq, List.head?_cons, eq_comm, Option.filter_eq_some_iff] at hwinner
  obtain ⟨hhead, hpasses⟩ := hwinner
  obtain ⟨rest₀, hq₀⟩ := List.head?_eq_some_iff.mp hhead
  refine ⟨rest₀, hq₀, hpasses, ?_⟩
  rw [queue_threshold, hq₀, List.filter_cons_of_pos hpasses, List.cons.injEq] at hq
  exact hq.2.symm

/-- A queue whose lines have neither moved nor gone is the same queue. -/
theorem queue_eq_of_request? (h : ∀ i, t'.request? threshold i = t.request? threshold i) :
    t'.queue threshold = t.queue threshold := by
  refine List.Pairwise.eq_of_mem_iff (pairwise_queue t' threshold) (pairwise_queue t threshold) ?_
  intro r
  rw [mem_queue, mem_queue, h]

/-- **What the service of its head makes of a queue**: it takes the head, if that gives way. -/
theorem queue_of_settled {acknowledged : Bool} {now : Nat} (hq : t.queue threshold = r :: rest)
    (ht' : ∀ i, t'.lines[i]? =
      t.lines[i]?.map fun l => if r.line = i then l.settle acknowledged now else l) :
    t'.queue threshold = if t.givesWay acknowledged r then rest else r :: rest := by
  obtain ⟨l, hl, -⟩ := mem_queue_iff.mp (hq ▸ List.mem_cons_self : r ∈ t.queue threshold)
  cases hway : t.givesWay acknowledged r with
  | true =>
    have hlowered : l.settle acknowledged now = l.lower := by
      cases acknowledged with
      | true => rfl
      | false =>
        have htrigger : l.attributes.trigger = .edge := by
          simpa [givesWay, isTriggered_eq hl] using hway
        exact Line.settle_of_edge htrigger
    obtain ⟨rest₀, hq₀, -, hrest⟩ := queue_zero_of_cons hq
    have hqueue : t'.queue 0 = rest₀ := by
      refine queue_of_lowered hq₀ fun i => ?_
      rw [ht']
      by_cases hi : r.line = i
      · rw [← hi, hl]
        simp [hlowered]
      · simp [hi]
    rw [if_pos rfl, queue_threshold, hqueue, hrest]
  | false =>
    obtain ⟨rfl, htrigger⟩ : acknowledged = false ∧ l.attributes.trigger = .level := by
      rw [givesWay, Bool.or_eq_false_iff, isTriggered_eq hl] at hway
      exact ⟨hway.1, by cases ht : l.attributes.trigger <;> simp_all⟩
    rw [if_neg Bool.false_ne_true, ← hq]
    refine queue_eq_of_request? fun i => ?_
    unfold request?
    rw [ht']
    by_cases hi : r.line = i
    · rw [← hi, hl]
      simp [Line.settle_of_level htrigger, Line.isEligible, Line.isActive]
    · simp [hi]

/-- No service changes how a line is read. -/
theorem isTriggered_of_settled {acknowledged : Bool} {now : Nat}
    (ht' : ∀ i, t'.lines[i]? =
      t.lines[i]?.map fun l => if r.line = i then l.settle acknowledged now else l)
    (line : Nat) (trigger : Trigger) : t'.isTriggered line trigger = t.isTriggered line trigger := by
  unfold isTriggered
  rw [ht']
  cases t.lines[line]? with
  | none => rfl
  | some l => by_cases hi : r.line = line <;> simp [hi]

end LineTable

namespace Controller

variable {σ : Type} {context : Nat} {threshold : UInt8} {c : Controller σ} {r : Request}
  {rest : List Request}

/-- A service under the plain handlers changes the line served and no other. -/
theorem getElem?_serve_plain (acknowledged : Bool) (c : Controller σ) (d : Delivery) (i : Nat) :
    (c.serve (.plain acknowledged) d).table.lines[i]? =
      c.table.lines[i]?.map fun l => if d.line = i then l.settle acknowledged c.table.now else l := by
  cases acknowledged with
  | true => exact getElem?_serve_acknowledging c d i
  | false => exact getElem?_serve_passive c d i

/-- Without a request in its queue a cycle of the context is idle. -/
theorem cycle_of_queue_nil (h : Handler σ) (context : Nat)
    (hq : c.table.queue threshold = []) : cycle h context threshold c = (none, c.tick) := by
  apply cycle_of_none
  rw [LineTable.winner_eq_head?, hq, List.head?_nil]

/-- **A cycle of a context services the head of its queue.** -/
theorem cycle_of_queue_cons (h : Handler σ) (context : Nat)
    (hq : c.table.queue threshold = r :: rest) :
    cycle h context threshold c = (some (r.on context), c.tick.serve h (r.on context)) := by
  apply cycle_of_some
  rw [LineTable.winner_eq_head?, hq, List.head?_cons]

/-! ## Cycles under a plain handler -/

/-- A cycle under the plain handlers changes the head of the queue and no other line. -/
theorem getElem?_cycle_plain (acknowledged : Bool) (context : Nat)
    (hq : c.table.queue threshold = r :: rest) (i : Nat) :
    (cycle (.plain acknowledged) context threshold c).2.table.lines[i]? =
      c.table.lines[i]?.map fun l =>
        if r.line = i then l.settle acknowledged (c.table.now + 1) else l := by
  rw [cycle_of_queue_cons _ context hq]
  exact getElem?_serve_plain acknowledged c.tick (r.on context) i

/-- **What a cycle makes of a queue**: it takes the head, if that gives way, and else leaves the
queue as it was. -/
theorem queue_cycle_plain (acknowledged : Bool) (context : Nat)
    (hq : c.table.queue threshold = r :: rest) :
    (cycle (.plain acknowledged) context threshold c).2.table.queue threshold =
      if c.table.givesWay acknowledged r then rest else r :: rest :=
  LineTable.queue_of_settled hq (getElem?_cycle_plain acknowledged context hq)

/-- No cycle changes how a line is read. -/
theorem isTriggered_cycle_plain (acknowledged : Bool) (context : Nat) (threshold : UInt8)
    (c : Controller σ) (line : Nat) (trigger : Trigger) :
    (cycle (.plain acknowledged) context threshold c).2.table.isTriggered line trigger =
      c.table.isTriggered line trigger := by
  cases hq : c.table.queue threshold with
  | nil =>
    rw [cycle_of_queue_nil _ context hq]
    rfl
  | cons r rest =>
    exact LineTable.isTriggered_of_settled (getElem?_cycle_plain acknowledged context hq) line trigger

end Controller

end Irq
