import Irq.Proofs.Polling
import Irq.Proofs.TriggerBalance
import Mathlib.Data.Finset.Card

/-!
# Irq.Proofs.Workload

The work that a drain can find. Only a request that is raised or sampled makes a line pending, and
one at a time; the service of a pending edge line uses its request up. So over any events whose
deliveries are of edge lines, the deliveries and the lines that are pending at the end are together
no more than the lines that were pending at the start and the triggers since
(`card_pendingLines_replay_add_le`). A drain whose budget covers these therefore comes to the end of
its work, whatever its handler does beside raising requests (`drain_within_workload`).
-/

namespace Irq

/-! ## Pending lines and triggers -/

/-- Whether a command can make a line pending. -/
def Command.isTrigger : Command → Bool
  | setPending _ | sample _ _ => true
  | configure _ _ _ | setPriority _ _ | setAttributes _ _ | enable _ | disable _ | clearPending _
  | reset => false

/-- The number of commands among events that can make a line pending. -/
def triggers (events : List Event) : Nat :=
  events.countP fun
    | .command cmd => cmd.isTrigger
    | .threshold _ _ | .tick | .delivery _ | .cleared => false

namespace LineTable

/-- The lines that are pending, enabled or not. -/
def pendingLines (t : LineTable) : Finset Nat := (Finset.range t.size).filter (t.isPending ·)

/-- Whether every line is edge triggered. -/
def AllEdge (t : LineTable) : Prop := ∀ line < t.size, t.isTriggered line .edge = true

instance (t : LineTable) : Decidable t.AllEdge :=
  inferInstanceAs (Decidable (∀ line < t.size, t.isTriggered line .edge = true))

variable {t : LineTable} {line : Nat}

theorem lt_size_of_isPending (hpending : t.isPending line = true) : line < t.size := by
  obtain ⟨l, hl, -⟩ := (Option.any_eq_true ..).mp hpending
  exact (Array.getElem?_eq_some_iff.mp hl).1

theorem mem_pendingLines : line ∈ t.pendingLines ↔ t.isPending line = true := by
  rw [pendingLines, Finset.mem_filter, Finset.mem_range, and_iff_right_iff_imp]
  exact lt_size_of_isPending

/-- Without a pending line there is nothing to service. -/
theorem winner_eq_none_of_card_eq_zero (hnone : t.pendingLines.card = 0) (threshold : UInt8) :
    t.winner threshold = none := by
  rw [Option.eq_none_iff_forall_ne_some]
  intro r hr
  obtain ⟨l, hl, heligible, -⟩ := request?_eq_some_iff.mp (winnerBelow_sound hr).2
  have hpending : t.isPending r.line = true := by
    rw [Line.isEligible, Line.isActive, Bool.and_eq_true, Bool.and_eq_true] at heligible
    rw [isPending_eq hl]
    exact heligible.1.2
  rw [Finset.card_eq_zero] at hnone
  simpa [hnone] using mem_pendingLines.mpr hpending

/-! ## What an event does to them -/

/-- **A command makes no line pending but the one that it triggers.** -/
theorem isPending_of_apply {cmd : Command} (hpending : (t.apply cmd).isPending line = true) :
    t.isPending line = true ∨ cmd.isTrigger = true ∧ cmd.line? = some line := by
  unfold isPending at hpending ⊢
  rw [getElem?_apply] at hpending
  cases hl : t.lines[line]? with
  | none => simp [hl] at hpending
  | some l =>
    rw [hl, Option.map_some, Option.any_some] at hpending
    split at hpending
    · next hconcerns =>
      cases cmd with
      | configure | setPriority | setAttributes | enable | disable => exact .inl hpending
      | setPending | sample =>
        exact .inr ⟨rfl, by simpa [Command.concerns, Command.line?] using hconcerns⟩
      | clearPending | reset => simp [effect, Line.clear] at hpending
    · exact .inl hpending

/-- A command adds a pending line at most where it is a trigger. -/
theorem card_pendingLines_apply_le (t : LineTable) (cmd : Command) :
    (t.apply cmd).pendingLines.card ≤ t.pendingLines.card + triggers [.command cmd] := by
  cases htrigger : cmd.isTrigger with
  | false =>
    have hsubset : (t.apply cmd).pendingLines ⊆ t.pendingLines := by
      intro line hline
      rw [mem_pendingLines] at hline ⊢
      simpa [htrigger] using isPending_of_apply hline
    exact Nat.le_add_right_of_le (Finset.card_le_card hsubset)
  | true =>
    obtain ⟨id, hid⟩ : ∃ id, cmd.line? = some id := by
      cases cmd <;> simp [Command.isTrigger, Command.line?] at htrigger ⊢
    have hsubset : (t.apply cmd).pendingLines ⊆ insert id t.pendingLines := by
      intro line hline
      rw [mem_pendingLines] at hline
      rw [Finset.mem_insert, mem_pendingLines]
      rcases isPending_of_apply hline with hpending | ⟨-, hline⟩
      · exact .inr hpending
      · exact .inl (Option.some.inj (hline.symm.trans hid))
    have hone : triggers [.command cmd] = 1 := by simp [triggers, htrigger]
    rw [hone]
    exact (Finset.card_le_card hsubset).trans (Finset.card_insert_le id _)

/-- The service of an edge line uses its request up. -/
theorem pendingLines_serve (hedge : t.isTriggered line .edge = true) :
    (t.serve line).pendingLines = t.pendingLines.erase line := by
  ext i
  rw [Finset.mem_erase, mem_pendingLines, mem_pendingLines, isPending, isPending, getElem?_serve]
  by_cases hi : line = i
  · obtain ⟨l, hl, htrigger⟩ := (Option.any_eq_true ..).mp hedge
    rw [← hi, hl]
    simp [Line.pending_serve_of_edge (by simpa using htrigger)]
  · simp [hi, Ne.symm hi]

/-- **The balance of one event**: what is delivered has been pending, and what becomes pending has
been triggered. -/
theorem card_pendingLines_happen_add_le {e : Event}
    (hserved : ∀ d, e = .delivery d →
      t.isPending d.line = true ∧ t.isTriggered d.line .edge = true) :
    (t.happen e).pendingLines.card + (delivered [e]).length ≤
      t.pendingLines.card + triggers [e] := by
  cases e with
  | command cmd => exact card_pendingLines_apply_le t cmd
  | delivery d =>
    obtain ⟨hpending, hedge⟩ := hserved d rfl
    have hcard := Finset.card_erase_add_one (mem_pendingLines.mpr hpending)
    rw [← pendingLines_serve hedge] at hcard
    exact Nat.le_of_eq hcard
  | threshold | tick | cleared => exact Nat.le_refl _

/-- **The balance of events**, by induction on them. -/
theorem card_pendingLines_replay_add_le {es : List Event}
    (hserved : ∀ m ∈ t.moments es, ∀ d, m.event = .delivery d →
      m.before.isPending d.line = true ∧ m.before.isTriggered d.line .edge = true) :
    (t.replay es).pendingLines.card + (delivered es).length ≤
      t.pendingLines.card + triggers es := by
  induction es generalizing t with
  | nil => exact Nat.le_refl _
  | cons e es ih =>
    have hhead : (t.happen e).pendingLines.card + (delivered [e]).length ≤
        t.pendingLines.card + triggers [e] :=
      card_pendingLines_happen_add_le (hserved ⟨t, e⟩ List.mem_cons_self)
    have hrest := ih fun m hm => hserved m (List.mem_cons_of_mem _ hm)
    have hdelivered := congrArg List.length (delivered_append [e] es)
    have htriggers : triggers (e :: es) = triggers [e] + triggers es := by
      rw [triggers, triggers, triggers, ← List.countP_append, List.singleton_append]
    rw [List.length_append, List.singleton_append] at hdelivered
    rw [replay_cons, hdelivered, htriggers]
    omega

/-! ## Tables of edge lines -/

theorem isTriggered_serve (t : LineTable) (id line : Nat) (trigger : Trigger) :
    (t.serve id).isTriggered line trigger = t.isTriggered line trigger := by
  rw [isTriggered, isTriggered, getElem?_serve]
  cases t.lines[line]? with
  | none => rfl
  | some l => by_cases hid : id = line <;> simp [hid]

theorem AllEdge.serve (ht : t.AllEdge) (id : Nat) : (t.serve id).AllEdge := by
  intro line hline
  rw [size_serve] at hline
  rw [isTriggered_serve]
  exact ht line hline

end LineTable

namespace Controller

variable {σ : Type} {h : Handler σ} {context : Nat} {threshold : UInt8}

/-- A cycle makes its delivery right after its beginning. -/
theorem before_of_mem_cycle {c : Controller σ} (hg : c.thresholds.get context = .ok threshold)
    {m : Moment} (hm : m ∈ c.table.moments (cycleEvents h context threshold c)) {d : Delivery}
    (hd : m.event = .delivery d) : m.before = c.table.tick := by
  obtain ⟨first, rest, hes, hbefore⟩ := LineTable.mem_moments_iff.mp hm
  rw [hd] at hes
  unfold cycleEvents at hes
  cases hwinner : c.tick.table.winner threshold with
  | none =>
    rw [hwinner] at hes
    cases first <;> simp at hes
  | some r =>
    rw [hwinner] at hes
    have hwinner' : c.table.winner threshold = some r :=
      (LineTable.winner_tick c.table threshold).symm.trans hwinner
    obtain ⟨rfl, -⟩ := (Action.service hg hwinner').of_delivery hes
    exact hbefore

/-- A cycle leaves edge lines only, if its handler does when it is called. -/
theorem allEdge_cycle {c : Controller (σ × List Call)} (hedge : c.table.AllEdge)
    (hkeeps : ∀ call ∈ (cycle h.logged context threshold c).2.memory.2,
      call.given.AllEdge → call.left.AllEdge) :
    (cycle h.logged context threshold c).2.table.AllEdge := by
  unfold cycle at hkeeps ⊢
  cases hwinner : c.tick.table.winner threshold with
  | none => exact hedge
  | some r =>
    rw [hwinner] at hkeeps
    have htick : c.tick.table.AllEdge := hedge
    exact hkeeps _ (List.mem_append_right _ List.mem_cons_self) (htick.serve r.line)

/-- **A handler that keeps all lines edge triggered is called for edge lines only.** A log only
grows, so what holds of the calls of all cycles holds of those of the first. -/
theorem allEdge_of_mem_cycles {c : Controller (σ × List Call)}
    (hg : c.thresholds.get context = .ok threshold) (hedge : c.table.AllEdge)
    (stop : Option Delivery → Controller (σ × List Call) → Bool) (budget : Nat)
    (hkeeps : ∀ call ∈ (cyclesUntil h.logged context threshold stop budget [] c).2.memory.2,
      call.given.AllEdge → call.left.AllEdge) {m : Moment}
    (hm : m ∈ c.table.moments (cyclesEvents h.logged context threshold stop budget c))
    {d : Delivery} (hd : m.event = .delivery d) : m.before.AllEdge := by
  induction budget generalizing c with
  | zero => simp [cyclesEvents, LineTable.moments] at hm
  | succ budget ih =>
    have hfirst (hm : m ∈ c.table.moments (cycleEvents h.logged context threshold c)) :
        m.before.AllEdge := by
      rw [before_of_mem_cycle hg hm hd]
      exact hedge
    simp only [cyclesUntil_succ, cyclesEvents] at hkeeps hm
    split at hkeeps
    · next hstop =>
      rw [if_pos hstop, List.append_nil] at hm
      exact hfirst hm
    · next hstop =>
      rw [cyclesUntil_earlier] at hkeeps
      rw [if_neg hstop, LineTable.moments_append, ← (course_cycle h.logged hg).table] at hm
      have hg' := get_cycle h.logged hg
      rcases List.mem_append.mp hm with hm | hm
      · exact hfirst hm
      · obtain ⟨added, hlog, -⟩ := (course_cyclesUntil h.logged stop budget [] hg').log
        refine ih hg' (allEdge_cycle hedge fun call hcall => hkeeps call ?_) hkeeps hm
        dsimp only
        rw [hlog]
        exact List.mem_append_left _ hcall

/-- **A drain comes to the end of its work**, or makes a delivery with each poll of its budget. -/
theorem winner_eq_none_or_length_eq (h : Handler σ) (context : Nat) (threshold : UInt8)
    (budget : Nat) (c : Controller σ) :
    let loop := cyclesUntil h context threshold (fun outcome _ => outcome.isNone) budget [] c
    loop.2.table.winner threshold = none ∨ (loop.1.filterMap id).length = budget := by
  induction budget generalizing c with
  | zero => exact .inr rfl
  | succ budget ih =>
    simp only [cyclesUntil_succ]
    cases houtcome : (cycle h context threshold c).1 with
    | none => exact .inl (winner_of_cycle_eq_none houtcome)
    | some d =>
      rw [if_neg (by simp), cyclesUntil_earlier]
      refine (ih (cycle h context threshold c).2).imp_right fun hlength => ?_
      simpa using hlength

/-- On a context that is there a drain is its loop. -/
theorem drain_eq_loop (h : Handler σ) {c : Controller σ}
    (hg : c.thresholds.get context = .ok threshold) (maxPolls : Nat) :
    let loop := cyclesUntil h context threshold (fun outcome _ => outcome.isNone) maxPolls [] c
    c.drain h context maxPolls =
      (.ok ⟨loop.1.filterMap id, (loop.2.table.winner threshold).isNone⟩, loop.2) := by
  rw [drain, hg]

/-- The history of a drain are the events of its cycles. -/
theorem history_drain (h : Handler σ) {c : Controller σ}
    (hg : c.thresholds.get context = .ok threshold) (maxPolls : Nat) :
    c.history h [.drain context maxPolls] =
      cyclesEvents h context threshold (fun outcome _ => outcome.isNone) maxPolls c := by
  simp only [history, events, hg, List.append_nil]

/-- **A handler that keeps all lines edge triggered in a drain is called for edge lines only.** -/
theorem allEdge_of_mem_drain {c : Controller σ} (hg : c.thresholds.get context = .ok threshold)
    (hedge : c.table.AllEdge) {maxPolls : Nat}
    (hkeeps : ∀ call ∈ c.calls h [.drain context maxPolls],
      call.given.AllEdge → call.left.AllEdge) {m : Moment}
    (hm : m ∈ c.moments h [.drain context maxPolls]) {d : Delivery}
    (hd : m.event = .delivery d) : m.before.AllEdge := by
  have hg' : c.withLog.thresholds.get context = .ok threshold := hg
  have hcalls : c.calls h [.drain context maxPolls] =
      (c.withLog.drain h.logged context maxPolls).2.memory.2 := rfl
  rw [hcalls, drain_eq_loop h.logged hg'] at hkeeps
  rw [moments, ← history_withLog, history_drain h.logged hg'] at hm
  exact allEdge_of_mem_cycles hg' hedge _ maxPolls hkeeps hm hd

/-- **A drain ends its work within a bound.** Let a controller be reached in any way, with edge
lines only, and let its handler keep it so whenever it is called in a drain, and in all these calls
give at most `r` commands that raise a request or sample an input; it may enable, disable, clear and
reprioritise lines as it likes. The drain makes at most as many deliveries as lines were pending,
enabled or not, and `r` more. And if its budget covers these, nothing is eligible when it ends. -/
theorem drain_within_workload (g : Geometry) (memory : σ) (h : Handler σ) (ops : List Operation)
    {context : Nat} (hcontext : context < g.contexts) (maxPolls r : Nat) :
    let c := ((ofGeometry g memory).run h ops).2
    let op := Operation.drain context maxPolls
    c.table.AllEdge →
    (∀ call ∈ c.calls h [op], call.given.AllEdge → call.left.AllEdge) →
    triggers (c.history h [op]) ≤ r →
    ∃ outcome, (c.drain h context maxPolls).1 = .ok outcome ∧
      c.deliveries h [op] = outcome.serviced ∧
      outcome.serviced.length ≤ c.table.pendingLines.card + r ∧
      (c.table.pendingLines.card + r ≤ maxPolls → outcome.quiescent = true) := by
  intro c op hedge hkeeps htriggers
  obtain ⟨threshold, hg⟩ : ∃ threshold, c.thresholds.get context = .ok threshold :=
    exists_get_run g memory h ops hcontext
  have hserved : ∀ m ∈ c.moments h [op], ∀ d, m.event = .delivery d →
      m.before.isPending d.line = true ∧ m.before.isTriggered d.line .edge = true := by
    intro m hm d hd
    have hpending := pending_of_delivery hm hd
    exact ⟨hpending, allEdge_of_mem_drain hg hedge hkeeps hm hd d.line
      (LineTable.lt_size_of_isPending hpending)⟩
  have hbalance := LineTable.card_pendingLines_replay_add_le hserved
  have hdeliveries : c.deliveries h [op] = _ :=
    (deliveries_eq h c [op]).trans (congrArg delivered (history_drain h hg maxPolls))
  rw [delivered_cyclesEvents] at hdeliveries
  rw [← (course_run h c [op]).table, ← deliveries_eq, hdeliveries] at hbalance
  have hrun := drain_eq_loop h hg maxPolls
  have hafter : (c.run h [op]).2 = (c.drain h context maxPolls).2 := rfl
  have hend := winner_eq_none_or_length_eq h context threshold maxPolls c
  rw [hafter, hrun] at hbalance
  rw [hrun]
  refine ⟨_, rfl, hdeliveries, ?_, fun hbudget => ?_⟩
  · dsimp only at hbalance ⊢
    omega
  · dsimp only at hbalance hend ⊢
    rw [Option.isNone_iff_eq_none]
    rcases hend with hwinner | hlength
    · exact hwinner
    · -- Every poll of the budget has made a delivery, so nothing is left pending.
      exact LineTable.winner_eq_none_of_card_eq_zero (by omega) threshold

/-- The handler first raises the delivered line again and later enables the other one, which is
pending. A budget of three covers the two pending lines and the one trigger: all of it is used, and
nothing is left. -/
theorem drain_within_workload_of_retriggered :
    let h : Handler Nat :=
      ⟨fun n d _ => (n + 1, if n = 0 then [.setPending d.line] else [.enable 1])⟩
    let g : Geometry := { lines := 2 }
    let ops : List Operation :=
      [.access (.command (.configure 0 2 ⟨.edge, .positive⟩)), .access (.command (.enable 0)),
        .access (.command (.configure 1 1 ⟨.edge, .positive⟩)),
        .access (.command (.setPending 0)), .access (.command (.setPending 1))]
    let c := ((ofGeometry g 0).run h ops).2
    0 < g.contexts ∧ c.table.AllEdge ∧
      (∀ call ∈ c.calls h [.drain 0 3], call.given.AllEdge → call.left.AllEdge) ∧
      triggers (c.history h [.drain 0 3]) ≤ 1 ∧ c.table.pendingLines.card + 1 = 3 ∧
      ∃ outcome, (c.drain h 0 3).1 = .ok outcome ∧ outcome.serviced.length = 3 ∧
        outcome.serviced.length ≤ c.table.pendingLines.card + 1 ∧ outcome.quiescent = true := by
  intro h g ops c
  have hcontext : 0 < g.contexts := by decide
  have hedge : c.table.AllEdge := by decide +kernel
  have hkeeps : ∀ call ∈ c.calls h [.drain 0 3], call.given.AllEdge → call.left.AllEdge := by
    decide +kernel
  have htriggers : triggers (c.history h [.drain 0 3]) ≤ 1 := by decide +kernel
  have hbudget : c.table.pendingLines.card + 1 = 3 := by decide +kernel
  have hrun : (c.drain h 0 3).1 = .ok ⟨[⟨0, 2, 0⟩, ⟨0, 2, 0⟩, ⟨1, 1, 0⟩], true⟩ := by decide +kernel
  obtain ⟨outcome, houtcome, -, hbound, hquiescent⟩ :=
    drain_within_workload g 0 h ops hcontext 3 1 hedge hkeeps htriggers
  have hc : ((ofGeometry g 0).run h ops).2 = c := rfl
  rw [hc] at houtcome hbound hquiescent
  have hsame := Except.ok.inj (houtcome.symm.trans hrun)
  exact ⟨hcontext, hedge, hkeeps, htriggers, hbudget, outcome, houtcome, by rw [hsame]; rfl, hbound,
    hquiescent (Nat.le_of_eq hbudget)⟩

end Controller

end Irq
