import Irq.Proofs.Urgency
import Irq.Proofs.Workload

/-!
# Irq.Proofs.ServiceOrder

The order in which a drain services lines while its handler withdraws requests and disables lines,
but never adds work. Each poll then takes the head of a queue that has only lost requests since the
poll before (`mem_queue_of_noBusier`), and of the requests that are left none comes before it. The
head itself is left only on a level line, since the request of an edge line is used up and no one
raises it again (`line_ne_of_edge`). So the deliveries come in the order of the requests, whatever
the handler withdraws on the way (`drain_in_order`).
-/

namespace Irq

/-- Whether a command can only take work away. -/
def Command.withdraws : Command → Bool
  | clearPending _ | disable _ => true
  | configure _ _ _ | setPriority _ _ | setAttributes _ _ | enable _ | setPending _ | sample _ _
  | reset => false

/-- Whether a handler never does more than withdraw requests and disable lines. -/
def Handler.Withdraws {σ : Type} (h : Handler σ) : Prop :=
  ∀ memory d t, ∀ cmd ∈ (h.deliver memory d t).2, cmd.withdraws = true

/-- Whether a line asks for no more than another one: it has the same urgency, is read in the same
way, and is a candidate for service only if the other is. -/
structure Line.NoBusier (l' l : Line) : Prop where
  priority : l'.priority = l.priority
  attributes : l'.attributes = l.attributes
  active : l'.isActive = true → l.isActive = true

/-- Whether each line of a table asks for no more than the same line of another table. -/
def LineTable.NoBusier (t' t : LineTable) : Prop :=
  ∀ (i : Nat) (l' : Line), t'.lines[i]? = some l' → ∃ l, t.lines[i]? = some l ∧ l'.NoBusier l

/-! ## Lines that ask for no more -/

namespace Line.NoBusier

theorem refl (l : Line) : l.NoBusier l := ⟨rfl, rfl, id⟩

theorem trans {l l' l'' : Line} (second : l''.NoBusier l') (first : l'.NoBusier l) :
    l''.NoBusier l where
  priority := second.priority.trans first.priority
  attributes := second.attributes.trans first.attributes
  active := first.active ∘ second.active

/-- A service makes a line no busier. -/
theorem serve (now : Nat) (l : Line) : (l.serve now).NoBusier l where
  priority := priority_serve now l
  attributes := attributes_serve now l
  active hactive := by
    rw [isActive, enabled_serve, pending_serve] at hactive
    simp_all [isActive]

/-- A command that only withdraws makes a line no busier. -/
theorem effect {cmd : Command} (hcmd : cmd.withdraws = true) (t : LineTable) (l : Line) :
    (t.effect cmd l).NoBusier l := by
  cases cmd with
  | clearPending id => exact ⟨rfl, rfl, by simp [LineTable.effect, isActive]⟩
  | disable id => exact ⟨rfl, rfl, by simp [LineTable.effect, isActive]⟩
  | configure | setPriority | setAttributes | enable | setPending | sample | reset => cases hcmd

end Line.NoBusier

/-! ## Tables that ask for no more -/

namespace LineTable

variable {t t' t'' : LineTable} {threshold : UInt8} {r : Request}

namespace NoBusier

theorem refl (t : LineTable) : t.NoBusier t := fun _ l hl => ⟨l, hl, .refl l⟩

theorem trans (second : t''.NoBusier t') (first : t'.NoBusier t) : t''.NoBusier t := by
  intro i l'' hl''
  obtain ⟨l', hl', hsecond⟩ := second i l'' hl''
  obtain ⟨l, hl, hfirst⟩ := first i l' hl'
  exact ⟨l, hl, hsecond.trans hfirst⟩

/-- What asks for no more line by line asks for no more. -/
theorem of_map {f : Nat → Line → Line} (hlines : ∀ i, t'.lines[i]? = t.lines[i]?.map (f i))
    (hf : ∀ i l, (f i l).NoBusier l) : t'.NoBusier t := by
  intro i l' hl'
  rw [hlines, Option.map_eq_some_iff] at hl'
  obtain ⟨l, hl, rfl⟩ := hl'
  exact ⟨l, hl, hf i l⟩

theorem serve (t : LineTable) (id : Nat) : (t.serve id).NoBusier t := by
  refine of_map (getElem?_serve t id) fun i l => ?_
  split
  · exact .serve t.now l
  · exact .refl l

/-- A command that only withdraws makes a table no busier. -/
theorem apply {cmd : Command} (hcmd : cmd.withdraws = true) (t : LineTable) :
    (t.apply cmd).NoBusier t := by
  refine of_map (getElem?_apply t cmd) fun i l => ?_
  split
  · exact .effect hcmd t l
  · exact .refl l

/-- **Withdrawing commands leave no more work**, by induction on them. -/
theorem applyAll {cmds : List Command} (hcmds : ∀ cmd ∈ cmds, cmd.withdraws = true)
    (t : LineTable) : (t.applyAll cmds).NoBusier t := by
  induction cmds generalizing t with
  | nil => exact .refl t
  | cons cmd cmds ih =>
    have hrest := ih (fun cmd' hcmd' => hcmds cmd' (List.mem_cons_of_mem _ hcmd')) (t.apply cmd)
    exact hrest.trans (.apply (hcmds cmd List.mem_cons_self) t)

end NoBusier

/-- **A queue with no more work has only lost requests.** -/
theorem mem_queue_of_noBusier (hle : t'.NoBusier t) (hr : r ∈ t'.queue threshold) :
    r ∈ t.queue threshold := by
  rw [mem_queue, request?_eq_some_iff] at hr ⊢
  obtain ⟨l', hl', heligible, hrequest⟩ := hr
  obtain ⟨l, hl, hline⟩ := hle r.line l' hl'
  rw [Line.isEligible, Bool.and_eq_true, hline.priority] at heligible
  refine ⟨l, hl, ?_, hline.priority ▸ hrequest⟩
  rw [Line.isEligible, Bool.and_eq_true]
  exact ⟨hline.active heligible.1, heligible.2⟩

/-- The lines of its requests are read as they were. -/
theorem isTriggered_of_noBusier (hle : t'.NoBusier t) (hr : r ∈ t'.queue threshold)
    (trigger : Trigger) : t'.isTriggered r.line trigger = t.isTriggered r.line trigger := by
  obtain ⟨l', hl', -⟩ := mem_queue_iff.mp hr
  obtain ⟨l, hl, hline⟩ := hle r.line l' hl'
  rw [isTriggered_eq hl', isTriggered_eq hl, hline.attributes]

/-- The head of a queue comes before the requests of all other lines. -/
theorem eq_or_precedes_of_winner {s : Request} (hr : t.winner threshold = some r)
    (hs : s ∈ t.queue threshold) : r = s ∨ r.precedes s ∧ r.line ≠ s.line := by
  obtain ⟨hrequest, hleast⟩ := winner_eq_some_iff.mp hr
  by_cases hline : r.line = s.line
  · rw [mem_queue, ← hline, hrequest] at hs
    exact .inl (Option.some.inj hs)
  · rcases hleast s.line s (mem_queue.mp hs) with hsame | hprecedes
    · exact .inl hsame.symm
    · exact .inr ⟨hprecedes, hline⟩

theorem mem_queue_of_winner (hr : t.winner threshold = some r) : r ∈ t.queue threshold :=
  mem_queue.mpr (winner_eq_some_iff.mp hr).1

end LineTable

namespace Controller

variable {σ : Type} {h : Handler σ} {context : Nat} {threshold : UInt8} {c : Controller σ}
  {r s : Request}

/-! ## One cycle -/

/-- **A cycle leaves no more work**, if its handler only withdraws. -/
theorem noBusier_cycle (hh : h.Withdraws) (context : Nat) (threshold : UInt8)
    (c : Controller σ) : (cycle h context threshold c).2.table.NoBusier c.table := by
  cases hr : c.table.winner threshold with
  | none =>
    rw [cycle_of_none h context hr]
    exact .refl c.table
  | some r =>
    rw [cycle_of_some h context hr]
    have hgiven : (c.tick.table.serve r.line).NoBusier c.table := .serve c.tick.table r.line
    exact (LineTable.NoBusier.applyAll (hh _ _ _) _).trans hgiven

/-- **The request of an edge line is used up**: its service leaves none of the line behind. -/
theorem line_ne_of_edge (hh : h.Withdraws) (context : Nat)
    (hr : c.table.winner threshold = some r) (hedge : c.table.isTriggered r.line .edge = true)
    (hs : s ∈ (cycle h context threshold c).2.table.queue threshold) : s.line ≠ r.line := by
  intro hline
  rw [cycle_of_some h context hr] at hs
  have hgiven : s ∈ (c.tick.table.serve r.line).queue threshold :=
    LineTable.mem_queue_of_noBusier (.applyAll (hh _ _ _) _) hs
  obtain ⟨l', hl', -, hpending, -⟩ := LineTable.mem_queue_iff.mp hgiven
  obtain ⟨l, hl, htrigger⟩ := (Option.any_eq_true ..).mp hedge
  have hserved : l.serve (c.table.now + 1) = l' := by
    simpa [hline, LineTable.getElem?_serve, tick, LineTable.tick, hl] using hl'
  rw [← hserved, Line.pending_serve_of_edge (by simpa using htrigger)] at hpending
  cases hpending

/-! ## One poll after another -/

/-- **No later poll finds more work than an earlier one**, by induction on the polls between. -/
theorem noBusier_afterPolls (hh : h.Withdraws) (hg : c.thresholds.get context = .ok threshold)
    {n m : Nat} (hnm : n ≤ m) :
    (c.afterPolls h context m).table.NoBusier (c.afterPolls h context n).table := by
  induction m, hnm using Nat.le_induction with
  | base => exact .refl _
  | succ m _ ih =>
    rw [afterPolls_succ_last hg]
    exact (noBusier_cycle hh context threshold _).trans ih

/-- **Two polls service requests in their order**, or the same level line twice. -/
theorem ordered_of_winner_afterPolls (hh : h.Withdraws)
    (hg : c.thresholds.get context = .ok threshold) {k m : Nat} (hkm : k < m)
    (hr : (c.afterPolls h context k).table.winner threshold = some r)
    (hs : (c.afterPolls h context m).table.winner threshold = some s) :
    r.precedes s ∧ r.line ≠ s.line ∨ r = s ∧ c.table.isTriggered r.line .level = true := by
  have hleft : s ∈ (c.afterPolls h context (k + 1)).table.queue threshold :=
    LineTable.mem_queue_of_noBusier (noBusier_afterPolls hh hg hkm)
      (LineTable.mem_queue_of_winner hs)
  have hthere : s ∈ (c.afterPolls h context k).table.queue threshold :=
    LineTable.mem_queue_of_noBusier (noBusier_afterPolls hh hg (Nat.le_succ k)) hleft
  rcases LineTable.eq_or_precedes_of_winner hr hthere with rfl | hprecedes
  · have hedge : (c.afterPolls h context k).table.isTriggered r.line .edge = false := by
      rw [Bool.eq_false_iff]
      intro hedge
      rw [afterPolls_succ_last hg] at hleft
      exact line_ne_of_edge hh context hr hedge hleft rfl
    have hstart := noBusier_afterPolls hh hg (Nat.zero_le k)
    have hread := LineTable.isTriggered_of_noBusier hstart hthere .level
    rw [LineTable.isTriggered_level hthere, hedge] at hread
    exact .inr ⟨rfl, hread.symm⟩
  · exact .inl hprecedes

/-! ## The drain -/

/-- What the next poll of a context answers, after so many polls of it. -/
def answerAfter (h : Handler σ) (c : Controller σ) (context n : Nat) :
    Except Error (Option Delivery) :=
  ((c.afterPolls h context n).poll h context).1

theorem answerAfter_zero (hg : c.thresholds.get context = .ok threshold) :
    c.answerAfter h context 0 = .ok (cycle h context threshold c).1 :=
  congrArg Prod.fst (poll_eq_cycle h hg)

/-- A later answer comes after the first cycle, one poll earlier. -/
theorem answerAfter_succ (hg : c.thresholds.get context = .ok threshold) (n : Nat) :
    c.answerAfter h context (n + 1) =
      (cycle h context threshold c).2.answerAfter h context n := by
  rw [answerAfter, afterPolls_succ hg]
  rfl

/-- A poll delivers what arbitration chooses before it. -/
theorem answerAfter_eq_iff (hg : c.thresholds.get context = .ok threshold) {n : Nat}
    {d : Delivery} :
    c.answerAfter h context n = .ok (some d) ↔
      ∃ r, (c.afterPolls h context n).table.winner threshold = some r ∧ r.on context = d := by
  rw [answerAfter, fst_poll, pendingRequest_eq_some_iff, get_afterPolls hg]
  simp

/-- **The deliveries of a drain are those of its polls**, up to the first poll that makes none, by
induction on its budget. -/
theorem getElem?_serviced_iff (hg : c.thresholds.get context = .ok threshold) {budget k : Nat}
    {d : Delivery} :
    (List.filterMap id
      (cyclesUntil h context threshold (fun outcome _ => outcome.isNone) budget [] c).1)[k]? =
        some d ↔
      k < budget ∧ (∀ j < k, ∃ e, c.answerAfter h context j = .ok (some e)) ∧
        c.answerAfter h context k = .ok (some d) := by
  induction budget generalizing c k with
  | zero => simp [cyclesUntil]
  | succ budget ih =>
    have hfirst := answerAfter_zero (h := h) hg
    simp only [cyclesUntil_succ]
    cases houtcome : (cycle h context threshold c).1 with
    | none =>
      rw [houtcome] at hfirst
      cases k with
      | zero => simp [hfirst]
      | succ k =>
        rw [Nat.forall_lt_succ_left, hfirst]
        simp
    | some first =>
      rw [houtcome] at hfirst
      rw [if_neg (by simp), cyclesUntil_earlier]
      cases k with
      | zero => simp [hfirst]
      | succ k =>
        have hid : id (some first) = some first := rfl
        rw [List.reverse_singleton, List.singleton_append, List.filterMap_cons_some hid,
          List.getElem?_cons_succ, ih (get_cycle h hg), Nat.forall_lt_succ_left, hfirst,
          Nat.add_lt_add_iff_right]
        simp only [answerAfter_succ hg, Except.ok.injEq, Option.some.injEq, exists_eq', true_and]

/-- **If a poll makes a delivery, the polls before it have made some**, where no work is added. -/
theorem answerAfter_of_le (hh : h.Withdraws) (hg : c.thresholds.get context = .ok threshold)
    {j k : Nat} (hjk : j ≤ k) {d : Delivery} (hd : c.answerAfter h context k = .ok (some d)) :
    ∃ e, c.answerAfter h context j = .ok (some e) := by
  obtain ⟨r, hr, -⟩ := (answerAfter_eq_iff hg).mp hd
  have hthere := LineTable.mem_queue_of_noBusier (noBusier_afterPolls hh hg hjk)
    (LineTable.mem_queue_of_winner hr)
  obtain ⟨first, rest, hq⟩ := List.exists_cons_of_ne_nil (List.ne_nil_of_mem hthere)
  refine ⟨first.on context, (answerAfter_eq_iff hg).mpr ⟨first, ?_, rfl⟩⟩
  rw [LineTable.winner_eq_head?, hq, List.head?_cons]

/-- Deliveries in order are of each edge line one at most. -/
theorem countP_le_one_of_ordered {t : LineTable} {ds : List Delivery} {line : Nat}
    (hordered : ds.Pairwise fun d e => d.line ≠ e.line ∨ t.isTriggered d.line .level = true)
    (hedge : t.isTriggered line .edge = true) : ds.countP (·.line == line) ≤ 1 := by
  induction ds with
  | nil => exact Nat.zero_le 1
  | cons d ds ih =>
    obtain ⟨hbehind, hrest⟩ := List.pairwise_cons.mp hordered
    by_cases hd : d.line = line
    · have hnone : ds.countP (·.line == line) = 0 := by
        rw [List.countP_eq_zero]
        intro e he hsame
        have hline : e.line = line := by simpa using hsame
        rcases hbehind e he with hne | hlevel
        · exact hne (hd.trans hline.symm)
        · cases LineTable.isTriggered_unique (hd ▸ hedge) hlevel
      rw [List.countP_cons_of_pos (by simpa using hd), hnone]
    · rw [List.countP_cons_of_neg (by simpa using hd)]
      exact ih hrest

/-- **A drain services in order, unless its handler adds work.** Let a context be drained, from any
controller, and let the handler be any that only withdraws requests and disables lines, of whichever
lines. The deliveries are those that the polls of the budget make. Of two deliveries the later one
is of another line and comes behind the earlier one by priority and line number, or it is the same
delivery again, of a level line; so an edge line is delivered once at most. And neither in the queue
that the poll of a delivery finds nor in that of any later poll does a request come before it. -/
theorem drain_in_order (hh : h.Withdraws) (hg : c.thresholds.get context = .ok threshold)
    (maxPolls : Nat) :
    ∃ outcome, (c.drain h context maxPolls).1 = .ok outcome ∧
      (∀ k d, outcome.serviced[k]? = some d ↔
        k < maxPolls ∧ c.answerAfter h context k = .ok (some d)) ∧
      outcome.serviced.Pairwise (fun d e =>
        d.request.precedes e.request ∧ d.line ≠ e.line ∨
          d = e ∧ c.table.isTriggered d.line .level = true) ∧
      (∀ line, c.table.isTriggered line .edge = true →
        outcome.serviced.countP (·.line == line) ≤ 1) ∧
      ∀ k d, outcome.serviced[k]? = some d → ∀ n, k ≤ n →
        ∀ r ∈ (c.afterPolls h context n).table.queue threshold, ¬ r.precedes d.request := by
  rw [drain_eq_loop h hg]
  refine ⟨_, rfl, ?_⟩
  dsimp only
  have hserviced := @getElem?_serviced_iff σ h context threshold c hg maxPolls
  generalize List.filterMap id _ = ds at hserviced ⊢
  have hpolls (k : Nat) (d : Delivery) :
      ds[k]? = some d ↔ k < maxPolls ∧ c.answerAfter h context k = .ok (some d) := by
    rw [hserviced]
    exact and_congr_right fun _ => and_iff_right_of_imp fun hd j hj =>
      answerAfter_of_le hh hg (Nat.le_of_lt hj) hd
  have hchosen {k : Nat} {d : Delivery} (hd : ds[k]? = some d) :=
    (answerAfter_eq_iff hg).mp ((hpolls k d).mp hd).2
  have hordered : ds.Pairwise (fun d e =>
      d.request.precedes e.request ∧ d.line ≠ e.line ∨
        d = e ∧ c.table.isTriggered d.line .level = true) := by
    rw [List.pairwise_iff_getElem]
    intro k m hk hm hkm
    obtain ⟨r, hr, hd⟩ := hchosen (List.getElem?_eq_getElem hk)
    obtain ⟨s, hs, he⟩ := hchosen (List.getElem?_eq_getElem hm)
    rw [← hd, ← he]
    refine (ordered_of_winner_afterPolls hh hg hkm hr hs).imp_right fun ⟨hsame, hlevel⟩ => ?_
    exact ⟨congrArg (Request.on · context) hsame, hlevel⟩
  refine ⟨hpolls, hordered, fun line hedge => ?_, fun k d hd n hkn r hr => ?_⟩
  · exact countP_le_one_of_ordered (hordered.imp fun hde => hde.imp And.right And.right) hedge
  · obtain ⟨first, hfirst, rfl⟩ := hchosen hd
    have hthere := LineTable.mem_queue_of_noBusier (noBusier_afterPolls hh hg hkn) hr
    rcases LineTable.eq_or_precedes_of_winner hfirst hthere with rfl | ⟨hbehind, -⟩
    · exact irrefl first
    · exact asymm hbehind

/-- The first delivery of an edge line withdraws the next request in the queue, and the third one,
the second of a level line, disables this line. What is left of the queue is serviced in its order.
-/
theorem drain_in_order_of_withdrawing :
    let h : Handler Nat :=
      ⟨fun n d _ => (n + 1,
        if n = 0 then [.clearPending 1] else if n = 2 then [.disable d.line] else [])⟩
    let raised (line : Nat) (priority : UInt8) (trigger : Trigger) : List Operation :=
      [.access (.command (.configure line priority ⟨trigger, .positive⟩)),
        .access (.command (.enable line)), .access (.command (.setPending line))]
    let c := ((ofGeometry { lines := 4 } 0).run h
      (raised 3 7 .edge ++ raised 2 2 .level ++ raised 1 2 .edge ++ raised 0 1 .edge)).2
    let deliveries : List Delivery := [⟨0, 1, 0⟩, ⟨2, 2, 0⟩, ⟨2, 2, 0⟩, ⟨3, 7, 0⟩]
    h.Withdraws ∧ c.thresholds.get 0 = .ok 0 ∧
      (c.drain h 0 9).1 = .ok ⟨deliveries, true⟩ ∧ deliveries.countP (·.line == 3) ≤ 1 ∧
      c.answerAfter h 0 3 = .ok (some ⟨3, 7, 0⟩) := by
  intro h raised c deliveries
  have hh : h.Withdraws := by
    intro n d t cmd hcmd
    simp only [h] at hcmd
    split at hcmd
    · simp_all [Command.withdraws]
    · split at hcmd <;> simp_all [Command.withdraws]
  have hg : c.thresholds.get 0 = .ok 0 := by decide +kernel
  have hrun : (c.drain h 0 9).1 = .ok ⟨deliveries, true⟩ := by decide +kernel
  obtain ⟨outcome, houtcome, hpolls, -, hedge, -⟩ := drain_in_order hh hg 9
  have hsame : outcome = ⟨deliveries, true⟩ := Except.ok.inj (houtcome.symm.trans hrun)
  rw [hsame] at hedge hpolls
  exact ⟨hh, hg, hrun, hedge 3 (by decide +kernel), ((hpolls 3 _).mp rfl).2⟩

end Controller

end Irq
