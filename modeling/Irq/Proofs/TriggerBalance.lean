import Irq.Proofs.CallLog

/-!
# Irq.Proofs.TriggerBalance

The books of an edge line. A request of an edge line comes from a rise and ends with a service or a
withdrawal, and there is never more than one at a time. So over any run in which the line stays edge
triggered, rises and ends balance up to the request that is pending at the start and the one that is
pending at the end: no trigger is lost and none is serviced twice.
-/

namespace Irq

namespace Moment

/-- Whether a request of a line rises: the line is not pending, and a request is raised on it or its
input goes over to the asserted signal. -/
def rises (line : Nat) (m : Moment) : Bool :=
  !m.before.isPending line &&
    match m.event with
    | .command (.setPending id) => id == line
    | .command (.sample id signal) =>
      id == line && m.before.lines[line]?.any fun l =>
        l.input != signal && l.attributes.polarity.asserts signal
    | _ => false

/-- Whether the request of a line is withdrawn: the line is pending, and it is cleared by itself or
with all others. -/
def withdraws (line : Nat) (m : Moment) : Bool :=
  m.before.isPending line &&
    match m.event with
    | .command (.clearPending id) => id == line
    | .command .reset => true
    | _ => false

end Moment

namespace Line

/-- On an edge line a sample latches a request if the input goes over to the asserted signal. -/
theorem pending_sample_of_edge {l : Line} (he : l.attributes.trigger = .edge) (now : Nat)
    (signal : Bool) :
    (l.sample now signal).pending =
      (l.pending || (l.input != signal && l.attributes.polarity.asserts signal)) := by
  simp only [sample, he]
  split
  · next h => rw [h, pending_raise, Bool.or_true]
  · next h => simp [h]

/-- An edge line that was serviced is not pending. -/
theorem pending_serve_of_edge {l : Line} (he : l.attributes.trigger = .edge) (now : Nat) :
    (l.serve now).pending = false := by
  simp [pending_serve, he]

end Line

namespace Moment

/-- **The books of one moment.** What is pending before it or rises at it is serviced at it,
withdrawn at it or pending after it. A command that does not concern the line is neither a rise nor
a withdrawal. -/
theorem balance {m : Moment} {line : Nat} (hedge : m.before.isTriggered line .edge = true)
    (hserved : m.serves line = true → m.before.isPending line = true) :
    (m.before.isPending line).toNat + (m.rises line).toNat =
      (m.serves line).toNat + (m.withdraws line).toNat + (m.after.isPending line).toNat := by
  obtain ⟨t, e⟩ := m
  obtain ⟨l, hl, he⟩ := (Option.any_eq_true _ _).mp hedge
  have he : l.attributes.trigger = .edge := eq_of_beq he
  have hafter : (t.happen e).isPending line = (e.effect t line l).pending :=
    LineTable.isPending_happen hl e
  simp only [rises, withdraws, serves, after, LineTable.isPending_eq hl, hl, hafter] at hserved ⊢
  cases e with
  | command cmd =>
    by_cases hc : cmd.concerns line = true
    · simp only [Event.effect, hc, if_true, Event.delivery?, Option.any_none]
      cases cmd with
      | setPending id =>
        have hid : (id == line) = true := hc
        cases hp : l.pending <;> simp [LineTable.effect, hid]
      | clearPending id =>
        have hid : (id == line) = true := hc
        cases hp : l.pending <;> simp [LineTable.effect, hid]
      | sample id signal =>
        have hid : (id == line) = true := hc
        cases hp : l.pending <;>
          simp [LineTable.effect, hid, hp, Line.pending_sample_of_edge he]
      | reset => cases hp : l.pending <;> simp [LineTable.effect, Line.clear]
      | configure | setPriority | setAttributes | enable | disable =>
        cases hp : l.pending <;> simp [LineTable.effect, hp]
    · simp only [Event.effect, hc]
      cases cmd <;> simp_all [Command.concerns, Command.line?, Event.delivery?]
  | delivery d =>
    by_cases hd : d.line = line
    · have hpend : l.pending = true := hserved (by simp [Event.delivery?, hd])
      simp [Event.effect, Event.delivery?, hd, hpend, Line.pending_serve_of_edge he]
    · simp [Event.effect, Event.delivery?, hd]
  | threshold _ _ | tick | cleared => simp [Event.effect, Event.delivery?]

end Moment

/-- **The books of a list of events**, in which every service is one of a pending line. -/
theorem LineTable.balance {t : LineTable} {es : List Event} {line : Nat}
    (hedge : ∀ m ∈ t.moments es, m.before.isTriggered line .edge = true)
    (hserved : ∀ m ∈ t.moments es, m.serves line = true → m.before.isPending line = true) :
    (t.isPending line).toNat + (t.moments es).countP (Moment.rises line) =
      (t.moments es).countP (Moment.serves line) +
        (t.moments es).countP (Moment.withdraws line) + ((t.replay es).isPending line).toNat := by
  induction es generalizing t with
  | nil => simp [moments]
  | cons e es ih =>
    have hhead := Moment.balance (hedge ⟨t, e⟩ List.mem_cons_self)
      (hserved ⟨t, e⟩ List.mem_cons_self)
    have htail := ih (fun m hm => hedge m (List.mem_cons_of_mem _ hm))
      (fun m hm => hserved m (List.mem_cons_of_mem _ hm))
    have hafter : Moment.after ⟨t, e⟩ = t.happen e := rfl
    have hcount (b : Bool) : (if b = true then 1 else 0) = b.toNat := by cases b <;> rfl
    rw [hafter] at hhead
    simp only [moments, replay_cons, List.countP_cons, hcount] at hhead htail ⊢
    omega

namespace Controller

variable {σ : Type}

/-- **No trigger of an edge line is lost, and none is serviced twice.** In any run in which a line
is edge triggered whenever something happens, also while a handler is at work, the request pending
at the start and the rises are as many as the services, the withdrawals and the request pending at
the end. -/
theorem edge_requests_balance (h : Handler σ) (c : Controller σ) (ops : List Operation)
    (line : Nat) (hedge : ∀ m ∈ c.moments h ops, m.before.isTriggered line .edge = true) :
    (c.table.isPending line).toNat + (c.moments h ops).countP (Moment.rises line) =
      (c.deliveries h ops).countP (·.line == line) +
        (c.moments h ops).countP (Moment.withdraws line) +
        ((c.run h ops).2.table.isPending line).toNat := by
  have hserved : ∀ m ∈ c.moments h ops,
      m.serves line = true → m.before.isPending line = true := by
    intro m hm hs
    obtain ⟨d, hd, rfl⟩ := Moment.serves_iff.mp hs
    exact pending_of_delivery hm hd
  rw [deliveries_eq, ← LineTable.countP_serves c.table, (course_run h c ops).table]
  exact LineTable.balance hedge hserved

/-- The handler raises each request again and then has it acknowledged, so that of seven rises three
are serviced and three withdrawn, and one is left. -/
theorem edge_requests_balance_of_acknowledging :
    let h : Handler Unit := .acknowledging ⟨fun _ d _ => ((), [.setPending d.line])⟩
    let configured : List Operation :=
      [.access (.command (.configure 0 3 ⟨.edge, .positive⟩)), .access (.command (.enable 0))]
    let c := ((ofGeometry { lines := 2, contexts := 2 } ()).run h configured).2
    let ops : List Operation :=
      [.access (.command (.setPending 0)), .access (.command (.setPending 0)), .poll 1, .drain 0 3,
        .access (.command (.sample 0 true)), .access (.command (.sample 0 true)),
        .measureLatency 0 0 ⟨2, 3⟩, .reset, .store .byte 0 1]
    (∀ m ∈ c.moments h ops, m.before.isTriggered 0 .edge = true) ∧
      (c.moments h ops).countP (Moment.rises 0) = 7 ∧
      (c.table.isPending 0).toNat + (c.moments h ops).countP (Moment.rises 0) =
        (c.deliveries h ops).countP (·.line == 0) +
          (c.moments h ops).countP (Moment.withdraws 0) +
          ((c.run h ops).2.table.isPending 0).toNat :=
  ⟨by decide +kernel, by decide +kernel, edge_requests_balance _ _ _ 0 (by decide +kernel)⟩

end Controller

end Irq
