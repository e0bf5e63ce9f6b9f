import Irq.Proofs.Tally
import Irq.Proofs.Waits
import Mathlib.Algebra.BigOperators.Group.Finset.Piecewise
import Mathlib.Algebra.Order.BigOperators.Group.Finset

/-!
# Irq.Proofs.ClockBound

The clock bounds the record. A poll begins before every delivery, so no count exceeds the clock. The
waits of one line do not overlap: what a line has waited for all its services, and what it is
waiting now, has gone by on the clock together (`totalWait_add_waited_le`). So all waits of all
lines come to at most the clock for each line, whatever happens to the record in between; and as
long as that much fits into a machine word, no counter of a controller leaves it.
-/

namespace Irq

/-- The services among the events that happen to a table, each with the wait of its line. -/
def LineTable.services (t : LineTable) (es : List Event) : List (Delivery × Option Nat) :=
  (t.moments es).filterMap Moment.service?

/-- The sum of the waits of services. A service without a wait has waited for nothing. -/
def totalWait (services : List (Delivery × Option Nat)) : Nat :=
  (services.map fun s => s.2.getD 0).sum

/-- The services of one line. -/
def servicesOf (line : Nat) (services : List (Delivery × Option Nat)) :
    List (Delivery × Option Nat) :=
  services.filter (·.1.line == line)

/-- What the clock leaves room for in the record of a controller of so many lines. -/
structure ServiceRecord.WithinClock (lines now : Nat) (r : ServiceRecord) : Prop where
  total : r.total ≤ now
  count : ∀ line, r.count line ≤ now
  samples : r.waits.samples ≤ now
  sum : r.waits.total ≤ lines * now
  /-- The shortest and the longest wait lie on either side of the mean. -/
  extremes : 0 < r.waits.samples → ∃ shortest longest,
    r.waits.shortest = some shortest ∧ r.waits.longest = some longest ∧
      1 ≤ shortest ∧ shortest ≤ longest ∧ longest ≤ now ∧
      shortest * r.waits.samples ≤ r.waits.total ∧ r.waits.total ≤ longest * r.waits.samples
  shortest_eq_none : r.waits.shortest = none ↔ r.waits.samples = 0
  longest_eq_none : r.waits.longest = none ↔ r.waits.samples = 0

/-- Whether every counter of a controller stays below a bound. -/
structure Controller.CountsBelow {σ : Type} (bound : Nat) (c : Controller σ) : Prop where
  clock : c.table.now < bound
  total : c.record.total < bound
  count : ∀ line, c.record.count line < bound
  samples : c.record.waits.samples < bound
  sum : c.record.waits.total < bound

/-! ## The waits of one line do not overlap -/

namespace Line

/-- A trigger makes no wait longer. -/
theorem waited_raise_le (now : Nat) (l : Line) :
    ((l.raise now).waited now).getD 0 ≤ (l.waited now).getD 0 := by
  unfold raise
  split
  · exact Nat.le_refl _
  · simp [waited]

/-- A sample of the input makes no wait longer. -/
theorem waited_sample_le (now : Nat) (signal : Bool) (l : Line) :
    ((l.sample now signal).waited now).getD 0 ≤ (l.waited now).getD 0 := by
  unfold sample
  cases l.attributes.trigger <;> dsimp only <;> split
  · exact waited_raise_le now { l with input := signal }
  · exact Nat.le_refl _
  · exact waited_raise_le now { l with input := signal }
  · exact Nat.zero_le _

/-- With its service the wait of a line is over, or begins anew. -/
theorem waited_serve (now : Nat) (l : Line) : ((l.serve now).waited now).getD 0 = 0 := by
  unfold serve
  split
  · rfl
  · simp [waited]

end Line

namespace LineTable

/-- No command makes a line have waited for longer. -/
theorem waited_effect_le (t : LineTable) (cmd : Command) (l : Line) :
    ((t.effect cmd l).waited t.now).getD 0 ≤ (l.waited t.now).getD 0 := by
  cases cmd with
  | configure | setPriority | setAttributes | enable | disable => exact Nat.le_refl _
  | setPending => exact Line.waited_raise_le t.now l
  | sample _ signal => exact Line.waited_sample_le t.now signal l
  | clearPending | reset => exact Nat.zero_le _

/-- No command makes a wait longer. -/
theorem waited_apply_le (t : LineTable) (cmd : Command) (line : Nat) :
    ((t.apply cmd).waited line).getD 0 ≤ (t.waited line).getD 0 := by
  unfold waited
  rw [getElem?_apply, now_apply]
  cases t.lines[line]? with
  | none => exact Nat.le_refl _
  | some l =>
    simp only [Option.map_some, Option.bind_some]
    split
    · exact waited_effect_le t cmd l
    · exact Nat.le_refl _

/-- A wait grows by no more than the clock. -/
theorem waited_tick_le (t : LineTable) (line : Nat) :
    (t.tick.waited line).getD 0 ≤ (t.waited line).getD 0 + 1 := by
  have hlines : t.tick.lines = t.lines := rfl
  have hnow : t.tick.now = t.now + 1 := rfl
  unfold waited
  rw [hlines, hnow]
  cases t.lines[line]? with
  | none => exact Nat.zero_le _
  | some l =>
    simp only [Option.bind_some, Line.waited]
    cases l.since with
    | none => exact Nat.zero_le _
    | some s =>
      simp only [Option.map_some, Option.getD_some]
      omega

/-- A service ends the wait of its line and of no other. -/
theorem waited_serve (t : LineTable) (id line : Nat) :
    ((t.serve id).waited line).getD 0 = if id = line then 0 else (t.waited line).getD 0 := by
  unfold waited serve
  rw [Array.getElem?_modify]
  by_cases hid : id = line
  · cases t.lines[line]? with
    | none => simp [hid]
    | some l => simp [hid, Line.waited_serve]
  · simp [hid]

/-- The services of events in two goes are those of the first and those of the second. -/
theorem services_append (t : LineTable) (es fs : List Event) :
    t.services (es ++ fs) = t.services es ++ (t.replay es).services fs := by
  rw [services, moments_append, List.filterMap_append]
  rfl

end LineTable

theorem totalWait_append (first second : List (Delivery × Option Nat)) :
    totalWait (first ++ second) = totalWait first + totalWait second := by
  simp [totalWait]

theorem servicesOf_append (line : Nat) (first second : List (Delivery × Option Nat)) :
    servicesOf line (first ++ second) = servicesOf line first ++ servicesOf line second :=
  List.filter_append ..

namespace LineTable

/-- An event adds no more to the waits of a line, served or still going on, than it adds to the
clock. -/
theorem totalWait_happen_le (t : LineTable) (e : Event) (line : Nat) :
    totalWait (servicesOf line (t.services [e])) + ((t.happen e).waited line).getD 0 ≤
      (t.waited line).getD 0 + polls [e] := by
  cases e with
  | command cmd =>
    have hle := waited_apply_le t cmd line
    show 0 + ((t.apply cmd).waited line).getD 0 ≤ _
    omega
  | tick =>
    have hle := waited_tick_le t line
    show 0 + (t.tick.waited line).getD 0 ≤ (t.waited line).getD 0 + 1
    omega
  | delivery d =>
    show totalWait (servicesOf line [(d, t.waited d.line)]) + ((t.serve d.line).waited line).getD 0
      ≤ (t.waited line).getD 0 + 0
    rw [waited_serve]
    by_cases hd : d.line = line <;> simp [servicesOf, totalWait, hd]
  | threshold | cleared =>
    show 0 + (t.waited line).getD 0 ≤ _
    omega

/-- **The waits of one line do not overlap.** What it has waited for all its services and what it is
waiting now is no more than what it was waiting at the start and the polls begun since. -/
theorem totalWait_add_waited_le (t : LineTable) (es : List Event) (line : Nat) :
    totalWait (servicesOf line (t.services es)) + ((t.replay es).waited line).getD 0 ≤
      (t.waited line).getD 0 + polls es := by
  induction es generalizing t with
  | nil => exact Nat.le_of_eq (Nat.zero_add _)
  | cons e es ih =>
    have hhead := totalWait_happen_le t e line
    have htail := ih (t.happen e)
    have hservices : t.services (e :: es) = t.services [e] ++ (t.happen e).services es :=
      services_append t [e] es
    rw [hservices, servicesOf_append, totalWait_append, replay_cons, polls_cons]
    omega

end LineTable

/-! ## The sum over all lines -/

/-- The waits of services can be summed line by line. -/
theorem totalWait_eq_sum {lines : Nat} {services : List (Delivery × Option Nat)}
    (hlines : ∀ s ∈ services, s.1.line < lines) :
    totalWait services = ∑ line ∈ Finset.range lines, totalWait (servicesOf line services) := by
  induction services with
  | nil => simp [totalWait, servicesOf]
  | cons s services ih =>
    have hsplit (line : Nat) : totalWait (servicesOf line (s :: services)) =
        (if s.1.line = line then s.2.getD 0 else 0) + totalWait (servicesOf line services) := by
      by_cases hs : s.1.line = line <;> simp [servicesOf, totalWait, hs]
    have hhead : totalWait (s :: services) = s.2.getD 0 + totalWait services := by
      simp [totalWait]
    have hmem : s.1.line ∈ Finset.range lines := Finset.mem_range.mpr (hlines s List.mem_cons_self)
    have hrest := ih fun s' hs' => hlines s' (List.mem_cons_of_mem _ hs')
    rw [hhead, hrest, Finset.sum_congr rfl fun line _ => hsplit line, Finset.sum_add_distrib,
      Finset.sum_ite_eq, if_pos hmem]

/-- Waits that are bounded for each line are bounded for all lines. -/
theorem totalWait_le_mul {lines now : Nat} {services : List (Delivery × Option Nat)}
    (hlines : ∀ s ∈ services, s.1.line < lines)
    (hline : ∀ line, totalWait (servicesOf line services) ≤ now) :
    totalWait services ≤ lines * now := by
  rw [totalWait_eq_sum hlines]
  have hle := Finset.sum_le_card_nsmul (Finset.range lines) _ now fun line _ => hline line
  rwa [Finset.card_range, Nat.nsmul_eq_mul] at hle

/-! ## A poll begins before every delivery -/

/-- Where each delivery stands right behind a poll, there are no more deliveries than polls. At any
time a poll that has just begun has not made its delivery yet. -/
theorem length_delivered_le_polls {es : List Event}
    (hes : ∀ before d after, es = before ++ .delivery d :: after →
      ∃ earlier, before = earlier ++ [.tick]) :
    (delivered es).length ≤ polls es := by
  suffices hopen : (delivered es).length + (es.getLast? == some .tick).toNat ≤ polls es by omega
  induction es using List.reverseRecOn with
  | nil => exact Nat.le_refl _
  | append_singleton es e ih =>
    have hearlier := ih fun before d after hsplit =>
      hes before d (after ++ [e]) (by rw [hsplit]; simp)
    have hpolls : polls (es ++ [e]) = polls es + polls [e] := List.count_append
    rw [delivered_append, List.length_append, hpolls, List.getLast?_concat]
    cases e with
    | tick =>
      show _ + 0 + 1 ≤ polls es + 1
      omega
    | delivery d =>
      obtain ⟨earlier, hlast⟩ := hes es d [] rfl
      rw [hlast, List.getLast?_concat] at hearlier
      rw [hlast]
      exact hearlier
    | command | threshold | cleared =>
      show _ + 0 + 0 ≤ polls es + 0
      omega

/-! ## The record at every point of a history -/

theorem ServiceRecord.size_counts_foldl_enter (r : ServiceRecord)
    (services : List (Delivery × Option Nat)) :
    (services.foldl enter r).counts.size = r.counts.size := by
  induction services generalizing r with
  | nil => rfl
  | cons s services ih => rw [List.foldl_cons, ih, enter, size_counts_add]

/-- The shortest and the longest wait lie on either side of the mean. -/
theorem WaitSummary.extremes_of {ws : List Nat} {now : Nat} (hws : ∀ w ∈ ws, 1 ≤ w ∧ w ≤ now)
    (hpos : 0 < ws.length) :
    ∃ shortest longest, ws.min? = some shortest ∧ ws.max? = some longest ∧
      1 ≤ shortest ∧ shortest ≤ longest ∧ longest ≤ now ∧
      shortest * ws.length ≤ ws.sum ∧ ws.sum ≤ longest * ws.length := by
  have hne : ws ≠ [] := List.ne_nil_of_length_pos hpos
  obtain ⟨shortest, hshortest⟩ := Option.isSome_iff_exists.mp (List.isSome_min?_iff.mpr hne)
  obtain ⟨longest, hlongest⟩ := Option.isSome_iff_exists.mp (List.isSome_max?_iff.mpr hne)
  obtain ⟨hmem, hleast⟩ := List.min?_eq_some_iff.mp hshortest
  obtain ⟨hmem', hgreatest⟩ := List.max?_eq_some_iff.mp hlongest
  have hlower := List.card_nsmul_le_sum ws shortest hleast
  have hupper := List.sum_le_card_nsmul ws longest hgreatest
  rw [Nat.nsmul_eq_mul, Nat.mul_comm] at hlower hupper
  exact ⟨shortest, longest, hshortest, hlongest, (hws shortest hmem).1, hleast longest hmem',
    (hws longest hmem').2, hlower, hupper⟩

namespace ServiceRecord

/-- Services keep a record within the clock if there are no more of them than polls, each has waited
for at least one poll, and the waits of each line do not overlap. -/
theorem withinClock_foldl_enter {lines now : Nat} {services : List (Delivery × Option Nat)}
    (hservices : ∀ s ∈ services, s.1.line < lines ∧ ∃ w, s.2 = some w ∧ 1 ≤ w ∧ w ≤ now)
    (hlength : services.length ≤ now)
    (hline : ∀ line, totalWait (servicesOf line services) ≤ now) :
    (services.foldl enter (.ofSize lines)).WithinClock lines now := by
  let ws := services.map fun s => s.2.getD 0
  have htells : (services.foldl enter (.ofSize lines)).Tells ([] ++ services.map Prod.fst) := by
    refine (Tells.ofSize lines).foldl_enter fun s hs => ?_
    obtain ⟨hlt, w, hw, -⟩ := hservices s hs
    rw [size_counts_ofSize]
    exact ⟨hlt, Option.isSome_of_eq_some hw⟩
  have hwaits : (services.foldl enter (.ofSize lines)).waits = .of ws := by
    have hnew : (ServiceRecord.ofSize lines).waits = .of [] := rfl
    refine waits_foldl_enter hnew ?_
    rw [List.map_map]
    refine List.map_congr_left fun s hs => ?_
    obtain ⟨-, w, hw, -⟩ := hservices s hs
    rw [Function.comp_apply, hw, Option.getD_some]
  have hws : ∀ w ∈ ws, 1 ≤ w ∧ w ≤ now := by
    intro w hw
    obtain ⟨s, hs, rfl⟩ := List.mem_map.mp hw
    obtain ⟨-, w, hsome, hbounds⟩ := hservices s hs
    rwa [hsome]
  have hlen : ws.length = services.length := List.length_map _
  rw [List.nil_append] at htells
  constructor
  case total => rwa [htells.total, List.length_map]
  case count =>
    intro line
    rw [htells.count]
    exact Nat.le_trans List.countP_le_length (by rwa [List.length_map])
  case samples => rwa [htells.samples, List.length_map]
  case sum =>
    rw [hwaits]
    exact totalWait_le_mul (fun s hs => (hservices s hs).1) hline
  case extremes =>
    rw [hwaits]
    exact fun hpos => WaitSummary.extremes_of hws hpos
  case shortest_eq_none =>
    rw [hwaits]
    exact List.min?_eq_none_iff.trans List.length_eq_zero_iff.symm
  case longest_eq_none =>
    rw [hwaits]
    exact List.max?_eq_none_iff.trans List.length_eq_zero_iff.symm

end ServiceRecord

namespace Controller

variable {σ : Type}

/-- At every point of a history the record is what its last services have written. -/
theorem exists_record_replay {lines : Nat} {c : Controller Unit} (hc : c.record = .ofSize lines)
    (es : List Event) :
    ∃ recent, recent <:+ c.table.services es ∧
      (c.replay es).record = recent.foldl ServiceRecord.enter (.ofSize lines) := by
  induction es using List.reverseRecOn with
  | nil => exact ⟨[], List.nil_suffix, hc⟩
  | append_singleton es e ih =>
    obtain ⟨recent, hsuffix, hrecord⟩ := ih
    rw [LineTable.services_append, replay_append, replay_cons, replay_nil]
    have hquiet : (c.table.replay es).services [e] = [] →
        ((c.replay es).happen e).record = (c.replay es).record →
        ∃ recent, recent <:+ c.table.services es ++ (c.table.replay es).services [e] ∧
          ((c.replay es).happen e).record =
            recent.foldl ServiceRecord.enter (.ofSize lines) := by
      intro hnone hsame
      rw [hnone, List.append_nil, hsame]
      exact ⟨recent, hsuffix, hrecord⟩
    cases e with
    | command | tick => exact hquiet rfl rfl
    | threshold context level =>
      refine hquiet rfl ?_
      simp only [happen, setThreshold]
      split <;> rfl
    | delivery d =>
      obtain ⟨earlier, hearlier⟩ := hsuffix
      refine ⟨recent ++ [(d, (c.table.replay es).waited d.line)], ⟨earlier, ?_⟩, ?_⟩
      · rw [← List.append_assoc, hearlier]
        rfl
      · rw [List.foldl_append, ← hrecord, ← table_replay]
        rfl
    | cleared =>
      refine ⟨[], List.nil_suffix, ?_⟩
      show (c.replay es).record.reset = .ofSize lines
      rw [hrecord, ServiceRecord.reset, ServiceRecord.size_counts_foldl_enter,
        ServiceRecord.size_counts_ofSize]

theorem polls_le_of_prefix {first es : List Event} (hfirst : first <+: es) :
    polls first ≤ polls es :=
  hfirst.sublist.count_le _

/-- What is entered into the record up to any point of a history: a line that the record has, and a
wait of at least one poll and of no more than have begun. -/
theorem of_mem_services (g : Geometry) (memory : σ) (h : Handler σ) (ops : List Operation)
    {first : List Event} (hfirst : first <+: (ofGeometry g memory).history h ops)
    {s : Delivery × Option Nat} (hs : s ∈ (ofGeometry g memory).table.services first) :
    s.1.line < g.lines ∧ ∃ w, s.2 = some w ∧ 1 ≤ w ∧ w ≤ polls first := by
  obtain ⟨⟨before, e⟩, hm, hservice⟩ := List.mem_filterMap.mp hs
  obtain ⟨earlier, later, hsplit, hbefore⟩ := LineTable.mem_moments_iff.mp hm
  obtain ⟨rest, hhistory⟩ := hfirst
  have hrun : ⟨before, e⟩ ∈ (ofGeometry g memory).moments h ops := by
    rw [moments, ← hhistory, LineTable.moments_append]
    exact List.mem_append_left _ hm
  have hprefix : earlier <+: (ofGeometry g memory).history h ops := by
    rw [← hhistory, hsplit, List.append_assoc]
    exact List.prefix_append _ _
  cases e with
  | delivery d =>
    cases hservice
    have hall : (ofGeometry g memory).history h ops =
        earlier ++ .delivery d :: (later ++ rest) := by
      rw [← hhistory, hsplit, List.append_assoc, List.cons_append]
    obtain ⟨-, hwaited, hpos⟩ := waited_of_delivery g memory h ops hall
    obtain ⟨_, s, wait, -, -, hwait, hsum⟩ := stamped_of_delivery g memory h ops hrun rfl
    have hclock := (intact_replay g memory h ops hprefix).clock
    have hpolls : polls earlier ≤ polls first := polls_le_of_prefix ⟨_, hsplit.symm⟩
    dsimp only at hbefore hwait hsum
    refine ⟨line_lt_of_delivery g memory h ops hrun rfl, wait, hwait, ?_, ?_⟩
    · rw [hbefore, hwaited, Option.some.injEq] at hwait
      exact hwait ▸ hpos
    · rw [hbefore] at hsum
      omega
  | command | threshold | tick | cleared => simp [Moment.service?, Event.delivery?] at hservice

/-- **The record is within the clock at every point of a history**, also in the middle of a poll. -/
theorem withinClock_replay (g : Geometry) (memory : σ) (h : Handler σ) (ops : List Operation)
    {first : List Event} (hfirst : first <+: (ofGeometry g memory).history h ops) :
    ((ofGeometry g memory).forget.replay first).record.WithinClock g.lines (polls first) := by
  let start := ofGeometry g memory
  let services := start.table.services first
  have hnew : start.forget.record = .ofSize g.lines := rfl
  obtain ⟨recent, ⟨earlier, hservices⟩, hrecord⟩ := exists_record_replay hnew first
  change earlier ++ recent = services at hservices
  have hlength : services.length ≤ polls first := by
    have hmap : services.map Prod.fst = delivered first := LineTable.map_fst_services _ first
    rw [← List.length_map Prod.fst, hmap]
    refine length_delivered_le_polls fun before d after hsplit => ?_
    obtain ⟨rest, hhistory⟩ := hfirst
    have hall : start.history h ops = before ++ .delivery d :: (after ++ rest) := by
      rw [← hhistory, hsplit, List.append_assoc, List.cons_append]
    obtain ⟨opened, _, hopened, -⟩ := (course_run h start ops).of_delivery hall
    exact ⟨opened, hopened⟩
  have hline (line : Nat) : totalWait (servicesOf line services) ≤ polls first := by
    have hle := LineTable.totalWait_add_waited_le start.table first line
    have hstart : (start.table.waited line).getD 0 = 0 := by
      rw [LineTable.waited]
      cases hl : start.table.lines[line]? with
      | none => rfl
      | some l => rw [LineTable.eq_default_of_ofSize hl]; rfl
    change totalWait (servicesOf line services) + _ ≤ _ at hle
    omega
  rw [hrecord]
  refine ServiceRecord.withinClock_foldl_enter ?_ ?_ fun line => ?_
  · intro s hs
    have hmem : s ∈ services := hservices ▸ List.mem_append_right _ hs
    exact of_mem_services g memory h ops hfirst hmem
  · rw [← hservices, List.length_append] at hlength
    omega
  · have hle := hline line
    rw [← hservices, servicesOf_append, totalWait_append] at hle
    omega

/-- **The record cannot outgrow the clock.** After every run, resets included, neither the services
nor those of one line are more than the polls begun, and the waits come to at most the clock for
each line, with the shortest and the longest of them on either side of the mean. If that much fits
into 64 bits at the end of a run, then at no point of the run has a counter left them: no addition
has overflowed. -/
theorem record_within_clock (g : Geometry) (memory : σ) (h : Handler σ) (ops : List Operation) :
    let start := ofGeometry g memory
    let c := (start.run h ops).2
    c.record.WithinClock g.lines c.table.now ∧
      (max g.lines 1 * c.table.now < 2 ^ 64 →
        ∀ first, first <+: start.history h ops →
          (start.forget.replay first).CountsBelow (2 ^ 64)) := by
  intro start c
  have hclock {first : List Event} (hfirst : first <+: start.history h ops) :
      (start.forget.replay first).table.now = polls first := by
    rw [table_replay]
    exact (intact_replay g memory h ops hfirst).clock
  have hend : start.forget.replay (start.history h ops) = c.forget := (forget_run h start ops).symm
  have hnow : c.table.now = polls (start.history h ops) := by
    rw [← hclock (List.prefix_refl _), hend]
    rfl
  have hwithin := withinClock_replay g memory h ops (List.prefix_refl _)
  rw [hend, ← hnow] at hwithin
  refine ⟨hwithin, fun hfit first hfirst => ?_⟩
  have hpolls : polls first ≤ c.table.now := hnow ▸ polls_le_of_prefix hfirst
  have hat := withinClock_replay g memory h ops hfirst
  have hone : c.table.now ≤ max g.lines 1 * c.table.now :=
    Nat.le_mul_of_pos_left _ (Nat.le_max_right _ _)
  have hsum : g.lines * polls first ≤ max g.lines 1 * c.table.now :=
    Nat.mul_le_mul (Nat.le_max_left _ _) hpolls
  have hsmall : polls first < 2 ^ 64 := by omega
  exact {
    clock := hclock hfirst ▸ hsmall
    total := Nat.lt_of_le_of_lt hat.total hsmall
    count := fun line => Nat.lt_of_le_of_lt (hat.count line) hsmall
    samples := Nat.lt_of_le_of_lt hat.samples hsmall
    sum := Nat.lt_of_le_of_lt hat.sum (Nat.lt_of_le_of_lt hsum hfit) }

/-- The handler raises each request again, a level line is serviced over and over, and the record is
cleared in the middle: at the end seven polls have begun and four services are on record. -/
theorem record_within_clock_of_retriggering :
    let h : Handler Unit := ⟨fun _ d _ => ((), [.setPending d.line])⟩
    let g : Geometry := { lines := 2, contexts := 1 }
    let raised (line : Nat) (trigger : Trigger) : List Operation :=
      [.access (.command (.configure line 1 ⟨trigger, .positive⟩)),
        .access (.command (.enable line)), .access (.command (.setPending line))]
    let ops := raised 0 .edge ++ [.drain 0 3, .reset] ++ raised 1 .level ++ [.drain 0 4]
    let start := ofGeometry g ()
    let c := (start.run h ops).2
    max g.lines 1 * c.table.now < 2 ^ 64 ∧ c.table.now = 7 ∧ c.record.total = 4 ∧
      (start.forget.replay (start.history h ops)).CountsBelow (2 ^ 64) :=
  ⟨by decide +kernel, by decide +kernel, by decide +kernel,
    (record_within_clock _ _ _ _).2 (by decide +kernel) _ (List.prefix_refl _)⟩

end Controller

end Irq
