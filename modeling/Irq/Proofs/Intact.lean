import Irq.Proofs.CallLog

/-!
# Irq.Proofs.Intact

What no operation, no handler and no order of steps can break. A line carries a stamp exactly while
it is pending, no stamp lies in the future, and a stored priority has implemented bits only; the
tables keep the sizes they were made with, and the clock counts the polls. `Line.Sound` is the part
of this about one line; what each change of a line does to it is said once, and everything else
follows along the events of a run.
-/

namespace Irq

/-! ## One line -/

/-- What holds of a line in a table with the given priority mask and clock. -/
structure Line.Sound (mask : UInt8) (now : Nat) (l : Line) : Prop where
  /-- The line has a stamp exactly while it is pending. -/
  stamped : l.pending = true ↔ l.since.isSome = true
  /-- The stamp does not lie in the future. -/
  past : ∀ s, l.since = some s → s ≤ now
  /-- The priority has implemented bits only. -/
  masked : l.priority &&& mask = l.priority

namespace Line.Sound

variable {mask : UInt8} {now : Nat} {l : Line}

theorem default (mask : UInt8) : Sound mask 0 ({} : Line) := by
  constructor <;> simp

/-- A line stays sound while time goes by. -/
theorem later (hl : l.Sound mask now) {now' : Nat} (hle : now ≤ now') : l.Sound mask now' :=
  ⟨hl.stamped, fun s hs => Nat.le_trans (hl.past s hs) hle, hl.masked⟩

/-- A withdrawal keeps a line sound. -/
theorem lower (hl : l.Sound mask now) : l.lower.Sound mask now := by
  constructor
  · simp
  · simp
  · exact hl.masked

/-- A trigger keeps a line sound. -/
theorem raise (hl : l.Sound mask now) : (l.raise now).Sound mask now := by
  cases hp : l.pending with
  | true =>
    rw [raise_of_pending hp]
    exact hl
  | false =>
    rw [raise_of_not_pending hp]
    exact ⟨by simp, by simp, hl.masked⟩

/-- Only a pending line is serviced: the stamp that a level line then gets is that of a request. -/
theorem serve (hl : l.Sound mask now) (hp : l.pending = true) : (l.serve now).Sound mask now := by
  unfold Line.serve
  cases l.attributes.trigger with
  | edge => exact hl.lower
  | level => exact ⟨by simp [hp], by simp, hl.masked⟩

theorem withInput (hl : l.Sound mask now) (signal : Bool) :
    Sound mask now { l with input := signal } := ⟨hl.stamped, hl.past, hl.masked⟩

/-- A sample of the input keeps a line sound. -/
theorem sample (hl : l.Sound mask now) (signal : Bool) : (l.sample now signal).Sound mask now := by
  unfold Line.sample
  cases l.attributes.trigger <;> dsimp only <;> split
  · exact (hl.withInput signal).raise
  · exact hl.withInput signal
  · exact (hl.withInput signal).raise
  · exact (hl.withInput signal).lower

theorem masked_and (p mask : UInt8) : p &&& mask &&& mask = p &&& mask := by
  rw [UInt8.and_assoc, UInt8.and_self]

/-- A command keeps a line sound. -/
theorem effect {t : LineTable} (hl : l.Sound t.priorityMask t.now) (cmd : Command) :
    (t.effect cmd l).Sound t.priorityMask t.now := by
  cases cmd with
  | configure _ p _ => exact ⟨hl.stamped, hl.past, masked_and p t.priorityMask⟩
  | setPriority _ p => exact ⟨hl.stamped, hl.past, masked_and p t.priorityMask⟩
  | setAttributes | enable | disable => exact ⟨hl.stamped, hl.past, hl.masked⟩
  | setPending => exact hl.raise
  | clearPending => exact hl.lower
  | sample _ signal => exact hl.sample signal
  | reset =>
    have hcleared : Sound t.priorityMask t.now { l with enabled := false, input := false } :=
      ⟨hl.stamped, hl.past, hl.masked⟩
    exact hcleared.lower

end Line.Sound

/-! ## The table -/

/-- What holds of the table of a controller of the given shape after so many polls have begun. -/
structure LineTable.Intact (g : Geometry) (begun : Nat) (t : LineTable) : Prop where
  size : t.size = g.lines
  mask : t.priorityMask = LineTable.maskOfBits g.priorityBits
  clock : t.now = begun
  sound : ∀ (i : Nat) (l : Line), t.lines[i]? = some l → l.Sound t.priorityMask t.now

namespace LineTable.Intact

variable {g : Geometry} {begun : Nat} {t : LineTable}

/-- A new table is intact. -/
theorem ofSize (g : Geometry) : Intact g 0 (.ofSize g.lines g.priorityBits) := by
  refine ⟨size_ofSize _ _, rfl, rfl, ?_⟩
  intro i l hl
  rw [eq_default_of_ofSize hl]
  exact Line.Sound.default _

/-- One event keeps a table intact, if what it delivers is pending; it begins a poll or does not. -/
theorem happen (ht : t.Intact g begun) (e : Event)
    (hserved : ∀ d, e = .delivery d → t.isPending d.line = true) :
    (t.happen e).Intact g (begun + polls [e]) := by
  have hnow := now_happen t e
  refine ⟨by rw [size_happen, ht.size], by rw [priorityMask_happen, ht.mask],
    by rw [hnow, ht.clock], ?_⟩
  intro i l' hl'
  rw [getElem?_happen] at hl'
  obtain ⟨l, hl, rfl⟩ := Option.map_eq_some_iff.mp hl'
  have hsound := ht.sound i l hl
  rw [priorityMask_happen, hnow]
  refine Line.Sound.later ?_ (Nat.le_add_right _ _)
  cases e with
  | command cmd =>
    simp only [Event.effect]
    split
    · exact hsound.effect cmd
    · exact hsound
  | delivery d =>
    simp only [Event.effect]
    split
    · next hd =>
      have hp := hserved d rfl
      rw [hd, isPending_eq hl] at hp
      exact hsound.serve hp
    · exact hsound
  | threshold _ _ | tick | cleared => exact hsound

/-- **Events keep a table intact**, if all that they deliver is pending. -/
theorem replay {es : List Event} (ht : t.Intact g begun)
    (hserved : ∀ m ∈ t.moments es, ∀ d, m.event = .delivery d → m.before.isPending d.line = true) :
    (t.replay es).Intact g (begun + polls es) := by
  induction es generalizing t begun with
  | nil => exact ht
  | cons e es ih =>
    have hnext := ht.happen e fun d hd => hserved ⟨t, e⟩ List.mem_cons_self d hd
    have hrest := ih hnext fun m hm => hserved m (List.mem_cons_of_mem _ hm)
    rw [replay_cons, polls_cons, ← Nat.add_assoc]
    exact hrest

end LineTable.Intact

/-! ## The controller -/

/-- What holds of a controller of the given shape after so many polls have begun. -/
structure Controller.Intact {σ : Type} (g : Geometry) (begun : Nat) (c : Controller σ) : Prop where
  table : c.table.Intact g begun
  counts : c.record.counts.size = g.lines
  contexts : c.thresholds.size = g.contexts

namespace Controller

variable {σ : Type}

/-- The table is intact at every point of a run. -/
theorem intact_replay (g : Geometry) (memory : σ) (h : Handler σ) (ops : List Operation)
    {first : List Event} (hfirst : first <+: (ofGeometry g memory).history h ops) :
    ((ofGeometry g memory).table.replay first).Intact g (polls first) := by
  have hinside : ∀ m ∈ (ofGeometry g memory).table.moments first,
      m ∈ (ofGeometry g memory).moments h ops := by
    intro m hm
    obtain ⟨rest, hes⟩ := hfirst
    rw [moments, ← hes, LineTable.moments_append]
    exact List.mem_append_left _ hm
  have hintact : ((ofGeometry g memory).table.replay first).Intact g (0 + polls first) :=
    (LineTable.Intact.ofSize g).replay fun m hm d hd => pending_of_delivery (hinside m hm) hd
  rwa [Nat.zero_add] at hintact

/-- A line that is serviced carries a stamp of the past. -/
theorem stamped_of_delivery (g : Geometry) (memory : σ) (h : Handler σ) (ops : List Operation)
    {m : Moment} {d : Delivery} (hm : m ∈ (ofGeometry g memory).moments h ops)
    (hd : m.event = .delivery d) :
    ∃ l s wait, m.before.lines[d.line]? = some l ∧ l.since = some s ∧
      m.before.waited d.line = some wait ∧ s + wait = m.before.now := by
  obtain ⟨l, hl, hactive, -⟩ := active_of_delivery hm hd
  obtain ⟨first, rest, hes, hbefore⟩ := LineTable.mem_moments_iff.mp hm
  have hsound := (intact_replay g memory h ops ⟨_, hes.symm⟩).sound d.line l (hbefore ▸ hl)
  rw [Line.isActive, Bool.and_eq_true] at hactive
  obtain ⟨s, hs⟩ := Option.isSome_iff_exists.mp (hsound.stamped.mp hactive.2)
  have hpast := hsound.past s hs
  rw [← hbefore] at hpast
  refine ⟨l, s, m.before.now - s, hl, hs, ?_, Nat.add_sub_cancel' hpast⟩
  rw [LineTable.waited, hl, Option.bind_some, Line.waited, hs, Option.map_some]

/-- A line that is serviced is one of those that the controller was made with. -/
theorem line_lt_of_delivery (g : Geometry) (memory : σ) (h : Handler σ) (ops : List Operation)
    {m : Moment} {d : Delivery} (hm : m ∈ (ofGeometry g memory).moments h ops)
    (hd : m.event = .delivery d) : d.line < g.lines := by
  obtain ⟨l, hl, -, -⟩ := active_of_delivery hm hd
  obtain ⟨first, rest, hes, hbefore⟩ := LineTable.mem_moments_iff.mp hm
  rw [← (intact_replay g memory h ops ⟨_, hes.symm⟩).size, ← hbefore]
  exact (Array.getElem?_eq_some_iff.mp hl).1

/-- **Nothing breaks a controller**, whatever it is asked and whatever its handler does. After any
run it is intact, and its clock tells how many polls have begun. So is the table that each call of
the handler is given and the table that it leaves behind, where the clock tells of the polls begun
before the call. A line that is serviced carries a stamp of the past, from which its wait is
measured. -/
theorem intact_run (g : Geometry) (memory : σ) (h : Handler σ) (ops : List Operation) :
    let start := ofGeometry g memory
    let history := start.history h ops
    (start.run h ops).2.Intact g (polls history) ∧
      (∀ call ∈ start.calls h ops, ∃ first rest,
        history = first ++ .delivery call.delivery :: rest ∧
          call.given.Intact g (polls first) ∧ call.left.Intact g (polls first)) ∧
      ∀ m ∈ start.moments h ops, ∀ d, m.event = .delivery d →
        ∃ l s wait, m.before.lines[d.line]? = some l ∧ l.since = some s ∧
          m.before.waited d.line = some wait ∧ s + wait = m.before.now := by
  intro start history
  have hcourse := course_run h start ops
  refine ⟨?_, ?_, ?_⟩
  · constructor
    · rw [hcourse.table]
      exact intact_replay g memory h ops (List.prefix_refl _)
    · exact size_counts_run g memory h ops
    · rw [hcourse.sizes.2]
      exact Thresholds.size_ofSize g.contexts
  · intro call hcall
    have hwithin : Call.Within start.table history call := of_mem_calls hcall
    obtain ⟨first, cmds, rest, hes, hgiven, hleft⟩ := hwithin
    have hpolls (cmds : List Command) :
        polls (first ++ .delivery call.delivery :: cmds.map .command) = polls first := by
      simp [polls, List.count_eq_zero]
    have hgiven' : first ++ [.delivery call.delivery] <+: history :=
      ⟨cmds.map .command ++ rest, by rw [hes]; simp⟩
    have hleft' : first ++ .delivery call.delivery :: cmds.map .command <+: history :=
      ⟨rest, by rw [hes]; simp⟩
    refine ⟨first, cmds.map .command ++ rest, hes, ?_, ?_⟩
    · rw [hgiven, ← hpolls []]
      exact intact_replay g memory h ops hgiven'
    · have htable : call.left =
          start.table.replay (first ++ .delivery call.delivery :: cmds.map .command) := by
        rw [hleft, hgiven, ← LineTable.replay_commands, ← LineTable.replay_append]
        simp
      rw [htable, ← hpolls cmds]
      exact intact_replay g memory h ops hleft'
  · exact fun m hm d hd => stamped_of_delivery g memory h ops hm hd

end Controller

end Irq
