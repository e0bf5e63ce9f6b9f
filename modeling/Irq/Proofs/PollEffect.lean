import Irq.Proofs.Intact
import Irq.Proofs.Polling

/-!
# Irq.Proofs.PollEffect

What one poll does. It reads the clock, arbitrates, claims a line, calls a handler that may do to
the lines whatever a client may do, and records the service, in this order; and several observers
can be asked beforehand what it will come to. They agree with it and change nothing. Without a
request nothing moves but the clock. With one, the handler is called once and is given the table as
it was but for the clock and the claimed line (`LineTable.Claimed`); what the handler leaves behind
is the table afterwards, and what is recorded is what was there before its call
(`Controller.Serviced`).
-/

namespace Irq

/-- What a handler is given of a table when a line is delivered: the clock is one higher, and the
request of the line is used up if it is an edge line, and else measured anew from here. -/
structure LineTable.Claimed (t : LineTable) (line : Nat) (given : LineTable) : Prop where
  now : given.now = t.now + 1
  priorityMask : given.priorityMask = t.priorityMask
  other : ∀ i, i ≠ line → given.lines[i]? = t.lines[i]?
  edge : ∀ l, t.lines[line]? = some l → l.attributes.trigger = .edge →
    given.lines[line]? = some { l with pending := false, since := none }
  level : ∀ l, t.lines[line]? = some l → l.attributes.trigger = .level →
    given.lines[line]? = some { l with pending := true, since := some (t.now + 1) }

/-- To service a pending line one poll later is to claim it. -/
theorem LineTable.claimed_serve {t : LineTable} {line : Nat} (hpending : t.isPending line = true) :
    t.Claimed line (t.tick.serve line) := by
  have hlines (i : Nat) : (t.tick.serve line).lines[i]? =
      t.lines[i]?.map fun l => if line = i then l.serve (t.now + 1) else l :=
    getElem?_serve t.tick line i
  constructor
  case now => rfl
  case priorityMask => rfl
  case other =>
    intro i hi
    simp [hlines, Ne.symm hi]
  case edge =>
    intro l hl htrigger
    simp [hlines, hl, Line.serve, htrigger, Line.lower]
  case level =>
    intro l hl htrigger
    rw [isPending_eq hl] at hpending
    simp [hlines, hl, Line.serve, htrigger, hpending]

namespace Controller

variable {σ : Type} {h : Handler σ} {c : Controller σ} {context : Nat} {threshold : UInt8}
  {d : Delivery}

/-- What one poll that makes a delivery does between two controllers. -/
structure Serviced (h : Handler σ) (d : Delivery) (c after : Controller σ) : Prop where
  /-- The handler is called once, with the delivery and the table with its line claimed; the memory
  and the table that it leaves behind are those after the poll. -/
  handled : ∃ given, c.table.Claimed d.line given ∧
    c.calls h [.poll d.context] = [⟨d, given, after.table⟩] ∧
    h.handle c.memory d given = (after.memory, after.table)
  thresholds : after.thresholds = c.thresholds
  /-- What is recorded is the line with the priority that it had and the time since its stamp, as
  the line was before the poll. -/
  recorded : ∃ l since wait, c.table.lines[d.line]? = some l ∧ l.priority = d.priority ∧
    l.since = some since ∧ since + wait = c.table.now + 1 ∧
    after.record = c.record.add d.line d.priority (some wait) ∧
    after.record.count d.line = c.record.count d.line + 1

/-! ## The two ways of a poll -/

/-- The log of a poll is what the logging handler has written in its cycle. -/
theorem calls_poll (h : Handler σ) (hg : c.thresholds.get context = .ok threshold) :
    c.calls h [.poll context] = (cycle h.logged context threshold c.withLog).2.memory.2 := by
  have hg' : c.withLog.thresholds.get context = .ok threshold := hg
  have hlog : c.calls h [.poll context] = (c.withLog.poll h.logged context).2.memory.2 := rfl
  rw [hlog, poll_eq_cycle h.logged hg']

/-- **Without a request a poll moves the clock**, and the handler is not called. -/
theorem poll_of_none (h : Handler σ) (hg : c.thresholds.get context = .ok threshold)
    (hnone : c.table.winner threshold = none) :
    (c.poll h context).2 = { c with table := { c.table with now := c.table.now + 1 } } ∧
      c.calls h [.poll context] = [] := by
  rw [calls_poll h hg, poll_eq_cycle h hg, cycle_of_none h context hnone,
    cycle_of_none h.logged (c := c.withLog) context hnone]
  exact ⟨rfl, rfl⟩

/-- **With a request a poll services its line**, if the lines are sound and the record has them
all. -/
theorem serviced_of_some {g : Geometry} {begun : Nat} (htable : c.table.Intact g begun)
    (hcounts : c.record.counts.size = g.lines) (h : Handler σ)
    (hg : c.thresholds.get context = .ok threshold) {r : Request}
    (hr : c.table.winner threshold = some r) :
    Serviced h (r.on context) c (c.poll h context).2 := by
  obtain ⟨l, hl, heligible, hrequest⟩ :=
    LineTable.request?_eq_some_iff.mp (LineTable.winnerBelow_sound hr).2
  have hpriority : l.priority = r.priority := (congrArg Request.priority hrequest).symm
  rw [Line.isEligible, Line.isActive, Bool.and_eq_true, Bool.and_eq_true] at heligible
  have hsound := htable.sound r.line l hl
  obtain ⟨since, hsince⟩ := Option.isSome_iff_exists.mp (hsound.stamped.mp heligible.1.2)
  have hpast : since ≤ c.table.now := hsound.past since hsince
  have hcycle := cycle_of_some h context hr
  have hcycle' := cycle_of_some h.logged (c := c.withLog) context hr
  have hpoll : (c.poll h context).2 = c.tick.serve h (r.on context) := by
    rw [poll_eq_cycle h hg, hcycle]
  have hrecord : (c.poll h context).2.record =
      c.record.add r.line r.priority (some (c.table.now + 1 - since)) := by
    have hwaited : c.tick.table.waited r.line = some (c.table.now + 1 - since) := by
      simp [LineTable.waited, tick, LineTable.tick, hl, Line.waited, hsince]
    rw [hpoll, ← hwaited]
    rfl
  have hline : r.line < c.record.counts.size := by
    rw [hcounts, ← htable.size]
    exact (Array.getElem?_eq_some_iff.mp hl).1
  constructor
  case handled =>
    have hpending : c.table.isPending r.line = true :=
      (LineTable.isPending_eq hl).trans heligible.1.2
    refine ⟨c.tick.table.serve r.line, LineTable.claimed_serve hpending, ?_, ?_⟩
    · have hcalls := calls_poll h hg
      rw [hcycle'] at hcalls
      rw [hpoll]
      exact hcalls
    · rw [hpoll]
      rfl
  case thresholds =>
    rw [hpoll]
    rfl
  case recorded =>
    refine ⟨l, since, c.table.now + 1 - since, hl, hpriority, hsince, by omega, hrecord, ?_⟩
    rw [hrecord, ServiceRecord.count_add, if_pos ⟨rfl, hline⟩]

/-- A controller requests an interrupt if it presents a request to some context. -/
theorem isRequesting_iff :
    c.isRequesting = true ↔ ∃ context d, c.pendingRequest context = .ok (some d) := by
  rw [isRequesting, Array.any_eq_true']
  constructor
  · rintro ⟨threshold, hmem, hsome⟩
    obtain ⟨context, hg⟩ := Array.getElem?_of_mem hmem
    obtain ⟨r, hr⟩ := Option.isSome_iff_exists.mp hsome
    exact ⟨context, r.on context, pendingRequest_eq_some_iff.mpr
      ⟨threshold, r, Thresholds.get_eq_ok_iff.mpr hg, hr, rfl⟩⟩
  · rintro ⟨context, d, hd⟩
    obtain ⟨threshold, r, hg, hr, -⟩ := pendingRequest_eq_some_iff.mp hd
    exact ⟨threshold, Array.mem_of_getElem? (Thresholds.get_eq_ok_iff.mp hg),
      Option.isSome_iff_exists.mpr ⟨r, hr⟩⟩

/-- **What one poll does, and who foretells it.** Let a controller be reached in any way, whatever
its handler, and let a context that exists be polled; or let the request be claimed through the
register block around the controller. The answer is what the context was presented before, although
the clock goes on first. If it is none, the clock goes on by one, nothing else changes and the
handler is not called. If it is a delivery, then the handler is called once, is given the table with
the line claimed, and leaves behind the table and the memory after the poll; the thresholds stay;
and the record gets the line, its priority when it was chosen and the wait from its stamp before the
claim, whatever the handler does to the line. A cycle of the bus tells whether any context is
presented a request, and changes nothing. -/
theorem poll_effect (g : Geometry) (memory : σ) (h : Handler σ) (ops : List Operation)
    (hcontext : context < g.contexts) (base : Nat) :
    let c := ((ofGeometry g memory).run h ops).2
    let after := (c.poll h context).2
    let block : RegisterBlock σ := ⟨base, c⟩
    ∃ next, (c.poll h context).1 = .ok next ∧ c.pendingRequest context = .ok next ∧
      c.selectNext context = .ok (next.map Delivery.line) ∧
      block.output context = .ok next ∧ block.claim h context = (.ok next, ⟨base, after⟩) ∧
      (next = none → after = { c with table := { c.table with now := c.table.now + 1 } } ∧
        c.calls h [.poll context] = []) ∧
      (∀ d, next = some d → d.context = context ∧ Serviced h d c after) ∧
      Bus.Device.tick block = (c.isRequesting, block) ∧
      (c.isRequesting = true ↔ ∃ context d, c.pendingRequest context = .ok (some d)) := by
  intro c after block
  obtain ⟨threshold, hg⟩ : ∃ threshold, c.thresholds.get context = .ok threshold :=
    exists_get_run g memory h ops hcontext
  have htable : c.table.Intact g (polls ((ofGeometry g memory).history h ops)) := by
    rw [(course_run h (ofGeometry g memory) ops).table]
    exact intact_replay g memory h ops (List.prefix_refl _)
  have hpending : c.pendingRequest context =
      .ok ((c.table.winner threshold).map (Request.on · context)) := by
    rw [pendingRequest, hg]
    rfl
  have hpoll := (fst_poll h c context).trans hpending
  refine ⟨_, hpoll, hpending, ?_, hpending, Prod.ext hpoll rfl, fun hnone => ?_, fun d hd => ?_,
    rfl, isRequesting_iff⟩
  · rw [selectNext, hg, Option.map_map]
    rfl
  · exact poll_of_none h hg (Option.map_eq_none_iff.mp hnone)
  · obtain ⟨r, hr, rfl⟩ := Option.map_eq_some_iff.mp hd
    exact ⟨rfl, serviced_of_some htable (size_counts_run g memory h ops) h hg hr⟩

/-- A request waits through two polls before its line is enabled. The handler then takes the line
away, gives it another priority and raises it again; what is recorded is a wait of three polls at
the priority that was chosen. -/
theorem poll_effect_of_meddling :
    let h : Handler Unit :=
      ⟨fun _ d _ => ((), [.disable d.line, .setPriority d.line 9, .setPending d.line])⟩
    let g : Geometry := { lines := 2 }
    let ops : List Operation :=
      [.access (.command (.configure 1 3 ⟨.edge, .positive⟩)),
        .access (.command (.setPending 1)), .poll 0, .poll 0, .access (.command (.enable 1))]
    let c := ((ofGeometry g ()).run h ops).2
    let after := (c.poll h 0).2
    0 < g.contexts ∧ c.pendingRequest 0 = .ok (some ⟨1, 3, 0⟩) ∧
      (c.poll h 0).1 = .ok (some ⟨1, 3, 0⟩) ∧ Serviced h ⟨1, 3, 0⟩ c after ∧
      after.table.line 1 = .ok ⟨9, ⟨.edge, .positive⟩, false, true, false, some 3⟩ ∧
      after.record = ⟨#[0, 1], some 1, some 3, 1, ⟨1, 3, some 3, some 3⟩⟩ := by
  intro h g ops c after
  have hcontext : 0 < g.contexts := by decide
  have hpending : c.pendingRequest 0 = .ok (some ⟨1, 3, 0⟩) := by decide +kernel
  obtain ⟨next, hpoll, hnext, -, -, -, -, hserviced, -⟩ := poll_effect g () h ops hcontext 0
  have hsame : next = some ⟨1, 3, 0⟩ := Except.ok.inj (hnext.symm.trans hpending)
  rw [hsame] at hpoll
  exact ⟨hcontext, hpending, hpoll, (hserviced _ hsame).2, by decide +kernel, by decide +kernel⟩

end Controller

end Irq
