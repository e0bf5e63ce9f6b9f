import Irq.Proofs.ClockBound
import Irq.Proofs.Measuring

/-!
# Irq.Proofs.Instruments

The two instruments of a measurement. A report counts the polls of each completed trial; the record
subtracts the stamp of the line from the clock when the line is serviced. Under a plain handler the
stamp of the measured line lies at its last service, or at the start: a service settles the line
there, and a trial that runs out of budget leaves the stamp where it is, for the next trial finds
the line still pending (`Gauged`). So the record charges a completed trial with its polls and with
the budgets that ran out before it (`charged`), and the charges add up to the time from the start to
the last service (`instruments_agree`).
-/

namespace Irq

/-! ## Charges -/

/-- How many trials have run out of budget since the last one that completed. -/
def timedOut (past : List (Option Nat)) : Nat := (past.rtakeWhile Option.isNone).length

/-- What completed trials are charged: their polls, and the budgets that ran out since the completed
trial before, each by what went before it. -/
def charged (maxPolls : Nat) (past : List (Option Nat)) : List (Option Nat) → List Nat
  | [] => []
  | outcome :: outcomes =>
    (outcome.toList.map fun polls => polls + timedOut past * maxPolls) ++
      charged maxPolls (past ++ [outcome]) outcomes

@[simp] theorem timedOut_concat_none (past : List (Option Nat)) :
    timedOut (past ++ [none]) = timedOut past + 1 := by
  simp [timedOut, List.rtakeWhile_concat_pos]

@[simp] theorem timedOut_concat_some (past : List (Option Nat)) (polls : Nat) :
    timedOut (past ++ [some polls]) = 0 := by
  simp [timedOut, List.rtakeWhile_concat_neg]

theorem charged_append (maxPolls : Nat) (past first second : List (Option Nat)) :
    charged maxPolls past (first ++ second) =
      charged maxPolls past first ++ charged maxPolls (past ++ first) second := by
  induction first generalizing past with
  | nil => simp [charged]
  | cons outcome first ih => simp [charged, ih]

/-- A completed trial is charged its own polls and those of the trials that ran out of budget before
it. -/
theorem charged_append_cons (maxPolls : Nat) (past first : List (Option Nat)) (polls : Nat)
    (rest : List (Option Nat)) :
    charged maxPolls past (first ++ some polls :: rest) =
      charged maxPolls past first ++ (polls + timedOut (past ++ first) * maxPolls) ::
        charged maxPolls (past ++ first ++ [some polls]) rest :=
  charged_append ..

/-- Each completed trial is charged once. -/
@[simp] theorem length_charged (maxPolls : Nat) (past outcomes : List (Option Nat)) :
    (charged maxPolls past outcomes).length = outcomes.reduceOption.length := by
  induction outcomes generalizing past with
  | nil => rfl
  | cons outcome outcomes ih => cases outcome <;> simp [charged, ih]

/-- **Charges telescope**: with the budgets that ran out since the last completed trial they come to
all that was spent. -/
theorem sum_charged_add (maxPolls : Nat) (past outcomes : List (Option Nat)) :
    (charged maxPolls past outcomes).sum + timedOut (past ++ outcomes) * maxPolls =
      timedOut past * maxPolls + spent maxPolls outcomes := by
  induction outcomes generalizing past with
  | nil => simp [charged, spent]
  | cons outcome outcomes ih =>
    have hrest := ih (past ++ [outcome])
    rw [List.append_assoc, List.singleton_append] at hrest
    have hhead := spent_append maxPolls [outcome] outcomes
    rw [List.singleton_append] at hhead
    rw [charged, List.sum_append, hhead]
    cases outcome with
    | none =>
      rw [timedOut_concat_none, Nat.add_mul] at hrest
      simp only [spent, List.map_cons, List.map_nil, Option.getD_none, List.sum_singleton,
        Option.toList_none, List.sum_nil] at hrest ⊢
      omega
    | some polls =>
      rw [timedOut_concat_some] at hrest
      simp only [spent, List.map_cons, List.map_nil, Option.getD_some, List.sum_singleton,
        Option.toList_some] at hrest ⊢
      omega

/-- Trials that all complete are charged their polls and no more. -/
theorem charged_of_all_complete {maxPolls : Nat} {past outcomes : List (Option Nat)}
    (hpast : timedOut past = 0) (hall : outcomes.countP Option.isNone = 0) :
    charged maxPolls past outcomes = outcomes.reduceOption := by
  induction outcomes generalizing past with
  | nil => rfl
  | cons outcome outcomes ih =>
    cases outcome with
    | none => simp at hall
    | some polls =>
      have hrest := ih (timedOut_concat_some past polls) (by simpa using hall)
      simp [charged, hpast, hrest]

/-- What has been spent has been charged, but for the budgets that ran out at the end. -/
theorem sum_charged_nil_add (maxPolls : Nat) (outcomes : List (Option Nat)) :
    (charged maxPolls [] outcomes).sum + timedOut outcomes * maxPolls = spent maxPolls outcomes := by
  simpa [timedOut] using sum_charged_add maxPolls [] outcomes

/-- A trial that ran out of budget comes before the last completed trial or after it. -/
theorem countP_isNone_eq (outcomes : List (Option Nat)) :
    outcomes.countP Option.isNone =
      (outcomes.rdropWhile Option.isNone).countP Option.isNone + timedOut outcomes := by
  have hlast : (outcomes.rtakeWhile Option.isNone).countP Option.isNone = timedOut outcomes :=
    List.countP_eq_length.mpr fun _ hmem => List.mem_rtakeWhile_imp hmem
  rw [← hlast, ← List.countP_append, List.rdropWhile_append_rtakeWhile]

/-- **The sum of the charges**: all polls of completed trials, and the budgets that ran out before
the last of them. -/
theorem sum_charged_nil (maxPolls : Nat) (outcomes : List (Option Nat)) :
    (charged maxPolls [] outcomes).sum = outcomes.reduceOption.sum +
      maxPolls * (outcomes.rdropWhile Option.isNone).countP Option.isNone := by
  have hsum := sum_charged_nil_add maxPolls outcomes
  rw [spent_eq, countP_isNone_eq, Nat.add_mul] at hsum
  rw [Nat.mul_comm maxPolls]
  omega

/-! ## When a line is serviced -/

/-- The moments at which a line is serviced, among the events that happen to a table. -/
def LineTable.servings (line : Nat) (t : LineTable) (es : List Event) : List Moment :=
  (t.moments es).filter (Moment.serves line)

/-- The clock at the last service of a line among the events that happen to a table, or the clock at
the start if there is none. -/
def LineTable.lastServed (line : Nat) (t : LineTable) (es : List Event) : Nat :=
  (t.servings line es).getLast?.elim t.now (·.before.now)

/-- The events between two tables do not service a line, and leave it in the given state. -/
structure LineTable.Spared (line : Nat) (l : Line) (t : LineTable) (es : List Event)
    (t' : LineTable) : Prop where
  servings : t.servings line es = []
  line : t'.lines[line]? = some l

/-- The events between two tables service a line once, at the last of their clocks, and settle it
then from the given state. -/
structure LineTable.ServedLast (acknowledged : Bool) (line : Nat) (l : Line) (t : LineTable)
    (es : List Event) (t' : LineTable) : Prop where
  servings : ∃ m, t.servings line es = [m] ∧ m.before.now = t'.now ∧ m.before.lines[line]? = some l
  line : t'.lines[line]? = some (l.settle acknowledged t'.now)

/-- Whether a line is settled by its service or by an acknowledgement, its next wait begins then. -/
theorem Line.since_raise_settle (acknowledged : Bool) (now : Nat) (l : Line) :
    ((l.settle acknowledged now).raise now).since = some now := by
  rw [Line.since_raise]
  cases acknowledged with
  | true => rfl
  | false =>
    unfold Line.settle Line.serve
    cases l.attributes.trigger <;> simp [Line.lower]

namespace LineTable

variable {acknowledged : Bool} {line : Nat} {l : Line} {t t' : LineTable} {es fs : List Event}

theorem servings_append (line : Nat) (t : LineTable) (es fs : List Event) :
    t.servings line (es ++ fs) = t.servings line es ++ (t.replay es).servings line fs := by
  rw [servings, moments_append, List.filter_append]
  rfl

/-- Commands serve no line. -/
theorem servings_commands (line : Nat) (t : LineTable) (cmds : List Command) :
    t.servings line (cmds.map .command) = [] := by
  induction cmds generalizing t with
  | nil => rfl
  | cons cmd cmds ih => exact ih (t.apply cmd)

/-- A delivery with its commands serves the line it goes to. -/
theorem servings_delivery (line : Nat) (t : LineTable) (d : Delivery) (cmds : List Command) :
    t.servings line (.delivery d :: cmds.map .command) =
      if d.line = line then [⟨t, .delivery d⟩] else [] := by
  have hcommands : ((t.serve d.line).moments (cmds.map .command)).filter (Moment.serves line) =
    [] := servings_commands line _ cmds
  have htail : (t.happen (.delivery d)).moments (cmds.map .command) =
    (t.serve d.line).moments (cmds.map .command) := rfl
  rw [servings, moments, List.filter_cons, htail, hcommands]
  by_cases hd : d.line = line <;> simp [Moment.serves, Event.delivery?, hd]

/-- The services of a line are made when it is serviced. -/
theorem servicesOf_services (line : Nat) (t : LineTable) (es : List Event) :
    servicesOf line (t.services es) = (t.servings line es).filterMap Moment.service? := by
  rw [services, servings, servicesOf]
  induction t.moments es with
  | nil => rfl
  | cons m ms ih =>
    obtain ⟨t, e⟩ := m
    rw [List.filterMap_cons, List.filter_cons]
    cases e with
    | delivery d =>
      by_cases hd : d.line = line
      · simp [Moment.service?, Moment.serves, Event.delivery?, hd, ih]
      · simp [Moment.service?, Moment.serves, Event.delivery?, hd, ih]
    | command | threshold | tick | cleared =>
      simpa [Moment.service?, Moment.serves, Event.delivery?] using ih

/-- A service that comes after events without one is still the only one. -/
theorem Spared.append_served (first : Spared line l t es (t.replay es))
    (second : ServedLast acknowledged line l (t.replay es) fs t') :
    ServedLast acknowledged line l t (es ++ fs) t' := by
  refine ⟨?_, second.line⟩
  rw [servings_append, first.servings, List.nil_append]
  exact second.servings

/-- A line that is spared twice is spared. -/
theorem Spared.append (first : Spared line l t es (t.replay es))
    (second : Spared line l (t.replay es) fs t') : Spared line l t (es ++ fs) t' := by
  refine ⟨?_, second.line⟩
  rw [servings_append, first.servings, second.servings]
  rfl

/-- What a service of a line is recorded with. -/
theorem ServedLast.recorded (hs : ServedLast acknowledged line l t es t') :
    (servicesOf line (t.services es)).map Prod.snd = [l.since.map (t'.now - ·)] := by
  obtain ⟨m, hm, hnow, hl⟩ := hs.servings
  have hserves : m.serves line = true :=
    (List.mem_filter.mp (hm ▸ List.mem_singleton_self m : m ∈ t.servings line es)).2
  obtain ⟨d, hd, rfl⟩ := Moment.serves_iff.mp hserves
  rw [servicesOf_services, hm]
  simp [Moment.service?, hd, Event.delivery?, waited, hl, Line.waited, hnow]

/-- Nothing is recorded of a line that is spared. -/
theorem Spared.recorded (hs : Spared line l t es t') : servicesOf line (t.services es) = [] := by
  rw [servicesOf_services, hs.servings]
  rfl

/-- After a service the clock of the last service is that at which it was made. -/
theorem ServedLast.lastServed_append {t'' : LineTable}
    (hs : ServedLast acknowledged line l (t.replay es) fs t'') :
    t.lastServed line (es ++ fs) = t''.now := by
  obtain ⟨m, hm, hnow, -⟩ := hs.servings
  rw [lastServed, servings_append, hm, List.getLast?_append]
  exact hnow

/-- To spare a line leaves when it was last served. -/
theorem Spared.lastServed_append {t'' : LineTable} (hs : Spared line l (t.replay es) fs t'') :
    t.lastServed line (es ++ fs) = t.lastServed line es := by
  rw [lastServed, servings_append, hs.servings, List.append_nil]
  rfl

end LineTable

namespace Controller

variable {σ : Type} {acknowledged : Bool} {c : Controller σ} {context line : Nat}
  {threshold : UInt8} {l : Line}

/-! ## Cycles -/

/-- A cycle services what it delivers, at the clock that it has just advanced. -/
theorem servings_cycle (h : Handler σ) (context line : Nat) (threshold : UInt8)
    (c : Controller σ) :
    c.table.servings line (cycleEvents h context threshold c) =
      ((cycle h context threshold c).1.filter (·.line == line)).toList.map
        fun d => ⟨c.tick.table, .delivery d⟩ := by
  unfold cycleEvents cycle
  cases c.tick.table.winner threshold with
  | none => rfl
  | some r =>
    refine (LineTable.servings_delivery line c.tick.table (r.on context) _).trans ?_
    by_cases hr : (r.on context).line = line <;> simp [Option.filter, hr]

/-- A cycle that does not deliver a line leaves it alone, under a plain handler. -/
theorem cycle_spared (hl : c.table.lines[line]? = some l)
    (hother : (cycle (.plain acknowledged) context threshold c).1.any (·.line == line) = false) :
    c.table.Spared line l (cycleEvents (.plain acknowledged) context threshold c)
      (cycle (.plain acknowledged) context threshold c).2.table := by
  constructor
  · rw [servings_cycle]
    cases hd : (cycle (.plain acknowledged) context threshold c).1 <;> simp_all
  · cases hq : c.table.queue threshold with
    | nil =>
      rw [cycle_of_queue_nil _ context hq]
      exact hl
    | cons r rest =>
      have hne : r.line ≠ line := by
        rw [cycle_of_queue_cons _ context hq] at hother
        simpa [Request.on] using hother
      rw [getElem?_cycle_plain acknowledged context hq, hl, Option.map_some, if_neg hne]

/-- A cycle that delivers the line serves it last. -/
theorem cycle_served (hl : c.table.lines[line]? = some l)
    (hserved : (cycle (.plain acknowledged) context threshold c).1.any (·.line == line) = true) :
    c.table.ServedLast acknowledged line l
      (cycleEvents (.plain acknowledged) context threshold c)
      (cycle (.plain acknowledged) context threshold c).2.table := by
  obtain ⟨d, hd, hline⟩ := (Option.any_eq_true ..).mp hserved
  rw [beq_iff_eq] at hline
  refine ⟨⟨⟨c.tick.table, .delivery d⟩, ?_, (now_cycle ..).symm, hl⟩, ?_⟩
  · rw [servings_cycle, hd]
    simp [hline]
  · cases hq : c.table.queue threshold with
    | nil =>
      rw [cycle_of_queue_nil _ context hq] at hd
      cases hd
    | cons r rest =>
      rw [now_cycle, getElem?_cycle_plain acknowledged context hq, hl]
      rw [cycle_of_queue_cons _ context hq] at hd
      cases hd
      have hr : r.line = line := hline
      rw [Option.map_some, if_pos hr]

/-! ## Waits and trials -/

/-- **A wait spares its line or ends with its service**, as the count of the line tells. -/
theorem cyclesUntil_plain {before : Nat} (hp : Present context line threshold c)
    (hbefore : c.record.count line = before) (hl : c.table.lines[line]? = some l)
    (acknowledged : Bool) (budget : Nat) :
    let stop (_ : Option Delivery) (d : Controller σ) : Bool := before < d.record.count line
    let loop := cyclesUntil (.plain acknowledged) context threshold stop budget [] c
    let es := cyclesEvents (.plain acknowledged) context threshold stop budget c
    (before < loop.2.record.count line → c.table.ServedLast acknowledged line l es loop.2.table) ∧
      (¬ before < loop.2.record.count line → c.table.Spared line l es loop.2.table) := by
  intro stop
  induction budget generalizing c with
  | zero => exact ⟨fun hlt => absurd hlt (by simp [cyclesUntil, hbefore]), fun _ => ⟨rfl, hl⟩⟩
  | succ budget ih =>
    have hcount := count_cycle (.plain acknowledged) context threshold hp.lt_counts
    have htable := (course_cycle (.plain acknowledged) hp.get).table
    rw [hbefore] at hcount
    simp only [cyclesUntil_succ, cyclesEvents, stop]
    cases hany : (cycle (.plain acknowledged) context threshold c).1.any (·.line == line) with
    | true =>
      have hlt : before <
          (cycle (.plain acknowledged) context threshold c).2.record.count line := by
        rw [hcount, hany]
        exact Nat.lt_succ_self before
      rw [if_pos (decide_eq_true hlt), if_pos (decide_eq_true hlt), List.append_nil]
      exact ⟨fun _ => cycle_served hl hany, fun hnot => absurd hlt hnot⟩
    | false =>
      rw [hany, Bool.toNat_false, Nat.add_zero] at hcount
      rw [if_neg (by simp [hcount]), if_neg (by simp [hcount]), cyclesUntil_earlier]
      have hspared := cycle_spared hl hany
      obtain ⟨hserved, hmissed⟩ := ih (hp.cycle _) hcount hspared.line
      rw [htable] at hspared hserved hmissed
      exact ⟨fun hlt => hspared.append_served (hserved hlt),
        fun hnot => hspared.append (hmissed hnot)⟩

/-- A wait in which the line was serviced ends with this service; any other spares the line. -/
theorem awaitService_line (hp : Present context line threshold c)
    (hl : c.table.lines[line]? = some l) (acknowledged : Bool) (maxPolls : Nat) :
    let next := (c.awaitService (.plain acknowledged) context line maxPolls).2
    let es := awaitEvents (.plain acknowledged) c context line maxPolls
    (c.record.count line < next.record.count line →
        c.table.ServedLast acknowledged line l es next.table) ∧
      (¬ c.record.count line < next.record.count line → c.table.Spared line l es next.table) := by
  have hloop := cyclesUntil_plain hp rfl hl acknowledged maxPolls
  rw [awaitService_eq_loop _ hp.lt_size hp.get, awaitEvents, LineTable.line_eq_ok_iff.mpr hl,
    hp.get]
  exact hloop

/-- **What a trial makes of its line**: if it completes, the line is serviced once, at the end, and
else not at all. -/
theorem trial_plain (hp : Present context line threshold c) (hl : c.table.lines[line]? = some l)
    (acknowledged : Bool) (maxPolls : Nat) :
    let next := (trial (.plain acknowledged) context line maxPolls c).2
    let es := trialEvents (.plain acknowledged) context line maxPolls c
    (∃ n, (trial (.plain acknowledged) context line maxPolls c).1 = some n ∧
        next.table.now = c.table.now + n ∧
        c.table.ServedLast acknowledged line (l.raise c.table.now) es next.table) ∨
      ((trial (.plain acknowledged) context line maxPolls c).1 = none ∧
        next.table.now = c.table.now + maxPolls ∧
        c.table.Spared line (l.raise c.table.now) es next.table) := by
  intro next es
  have hraised : c.table.Spared line (l.raise c.table.now) [.command (.setPending line)]
      (c.table.replay [.command (.setPending line)]) := by
    refine ⟨rfl, ?_⟩
    show (c.table.apply (.setPending line)).lines[line]? = _
    rw [LineTable.getElem?_apply, hl]
    simp [Command.concerns, Command.line?, LineTable.effect]
  have hpresent : Present context line threshold (c.command (.setPending line)).2 := hp.command _
  obtain ⟨hserved, hspared⟩ := awaitService_line hpresent hraised.line acknowledged maxPolls
  obtain ⟨n, -, hnext, hend⟩ := trial_cases hp (.plain acknowledged) maxPolls
  change next = _ at hnext
  have hnow : next.table.now = c.table.now + n := by
    rw [hnext, (Elapsed.afterPolls hpresent _ n).now]
    exact congrArg (· + n) (LineTable.now_apply c.table _)
  have hcount : next.record.count line = _ := congrArg (·.record.count line) hnext
  rcases hend with ⟨houtcome, -, hgrown⟩ | ⟨houtcome, rfl, hkept⟩
  · refine .inl ⟨n, houtcome, hnow, hraised.append_served (hserved ?_)⟩
    exact Nat.lt_of_lt_of_eq (Nat.lt_succ_self _) (hcount.trans hgrown).symm
  · refine .inr ⟨houtcome, hnow, hraised.append (hspared ?_)⟩
    exact Nat.not_lt.mpr (Nat.le_of_eq (hcount.trans hkept))

/-! ## Stamps -/

/-- What the stamp of the measured line tells between trials: it lies at the last service of the
line, or at the start, and so as far back as the budgets that have run out since; and each completed
trial has been recorded with its charge. -/
structure Gauged (line maxPolls : Nat) (start : LineTable) (outcomes : List (Option Nat))
    (es : List Event) (c : Controller σ) : Prop where
  table : c.table = start.replay es
  recorded : (servicesOf line (start.services es)).map Prod.snd =
    (charged maxPolls [] outcomes).map some
  stamp : ∃ l, c.table.lines[line]? = some l ∧
    (l.raise c.table.now).since = some (start.lastServed line es)
  now : start.lastServed line es + timedOut outcomes * maxPolls = c.table.now

/-- A line that is not pending is ready to be measured. -/
theorem Gauged.start (maxPolls : Nat) (hl : c.table.lines[line]? = some l)
    (hidle : l.pending = false) : Gauged line maxPolls c.table [] [] c where
  table := rfl
  recorded := rfl
  stamp := ⟨l, hl, by rw [Line.since_raise, hidle]; rfl⟩
  now := by simp [timedOut, LineTable.lastServed, LineTable.servings, LineTable.moments]

/-- **One trial more.** -/
theorem Gauged.trial {maxPolls : Nat} {start : LineTable} {outcomes : List (Option Nat)}
    {es : List Event} (hg : Gauged line maxPolls start outcomes es c)
    (hp : Present context line threshold c) (acknowledged : Bool) :
    Gauged line maxPolls start
      (outcomes ++ [(trial (.plain acknowledged) context line maxPolls c).1])
      (es ++ trialEvents (.plain acknowledged) context line maxPolls c)
      (trial (.plain acknowledged) context line maxPolls c).2 := by
  obtain ⟨l, hl, hstamp⟩ := hg.stamp
  have hcourse : Course (.plain acknowledged) c
      (trialEvents (.plain acknowledged) context line maxPolls c)
      (Controller.trial (.plain acknowledged) context line maxPolls c).2 :=
    .cons (.command c _) (course_awaitService _ _ context line maxPolls)
  have htable := hcourse.table
  have hnow := hg.now
  have hrecorded := hg.recorded
  have hend := trial_plain hp hl acknowledged maxPolls
  rw [hg.table] at htable hend
  rw [hg.table] at hstamp hnow
  rcases hend with ⟨n, houtcome, hlater, hserved⟩ | ⟨houtcome, hlater, hspared⟩
  · -- The service is recorded with its distance from the stamp, and the stamp moves to it.
    refine ⟨htable.trans (LineTable.replay_append ..).symm, ?_, ?_, ?_⟩
    · have hwait : (start.replay es).now + n - start.lastServed line es =
          n + timedOut outcomes * maxPolls := by omega
      rw [LineTable.services_append, servicesOf_append, List.map_append, hrecorded,
        hserved.recorded, houtcome, charged_append, hstamp, hlater, Option.map_some, hwait]
      simp [charged]
    · exact ⟨_, hserved.line, by rw [Line.since_raise_settle, hserved.lastServed_append]⟩
    · rw [hserved.lastServed_append, houtcome, timedOut_concat_some]
      simp
  · -- The line stays pending with its stamp.
    refine ⟨htable.trans (LineTable.replay_append ..).symm, ?_, ?_, ?_⟩
    · rw [LineTable.services_append, servicesOf_append, hspared.recorded, houtcome, charged_append,
        List.append_nil, hrecorded]
      simp [charged]
    · refine ⟨_, hspared.line, ?_⟩
      rw [Line.raise_raise, hspared.lastServed_append, hstamp]
    · rw [hspared.lastServed_append, houtcome, timedOut_concat_none, Nat.add_mul, hlater, ← hnow]
      omega

/-- The charges come to the time from the start to the last service. -/
theorem Gauged.now_add_sum_charged {maxPolls : Nat} {start : LineTable}
    {outcomes : List (Option Nat)} {es : List Event}
    (hg : Gauged line maxPolls start outcomes es c)
    (hnow : c.table.now = start.now + spent maxPolls outcomes) :
    start.now + (charged maxPolls [] outcomes).sum = start.lastServed line es := by
  have hsum := sum_charged_nil_add maxPolls outcomes
  have hlast := hg.now
  omega

/-- **Any number of trials.** -/
theorem gauged_trials (hp : Present context line threshold c) (hl : c.table.lines[line]? = some l)
    (hidle : l.pending = false) (acknowledged : Bool) (maxPolls n : Nat) :
    Gauged line maxPolls c.table (trials (.plain acknowledged) context line maxPolls n c).1
      (trialsEvents (.plain acknowledged) context line maxPolls n c)
      (trials (.plain acknowledged) context line maxPolls n c).2 :=
  trials_invariant (fun outcomes es d => Gauged line maxPolls c.table outcomes es d)
    (fun hp' hg => hg.trial hp' acknowledged) hp [] [] (.start maxPolls hl hidle) n

/-- **The two instruments agree**, under a handler that does nothing of its own but, if so told,
acknowledges. Let a line be measured that is not pending, edge or level triggered. What the
measurement adds to the record are its services; those of the line are recorded with waits that add
up to the time from the start to the last of them, which is the sum of the samples of the report and
of the budgets that ran out before the last completed trial. If none ran out, the waits are the
samples. And each completed trial is recorded with its sample and with the budgets that ran out
since the completed trial before it. -/
theorem instruments_agree (acknowledged : Bool) (g : Geometry) (memory : σ) (ops : List Operation)
    {context line : Nat} (hcontext : context < g.contexts) (hline : line < g.lines)
    (plan : Sampling) :
    let h : Handler σ := .plain acknowledged
    let c := ((ofGeometry g memory).run h ops).2
    let measured := c.measureLatency h context line plan
    let op := Operation.measureLatency context line plan
    let outcomes := (trials h context line plan.maxPolls plan.trials c).1
    c.table.isPending line = false →
    ∃ report recorded, measured.1 = .ok report ∧
      report.samples.toList = outcomes.reduceOption ∧
      report.timeouts = outcomes.countP Option.isNone ∧
      measured.2.record = (c.services h [op]).foldl ServiceRecord.enter c.record ∧
      (servicesOf line (c.services h [op])).map Prod.snd = recorded.map some ∧
      c.table.now + recorded.sum = c.table.lastServed line (c.history h [op]) ∧
      recorded.sum = report.samples.sum +
        plan.maxPolls * (outcomes.rdropWhile Option.isNone).countP Option.isNone ∧
      (report.timeouts = 0 → recorded = report.samples.toList) ∧
      ∀ first polls rest, outcomes = first ++ some polls :: rest →
        ∃ earlier later,
          recorded = earlier ++ (polls + timedOut first * plan.maxPolls) :: later ∧
          earlier.length = first.reduceOption.length ∧ later.length = rest.reduceOption.length := by
  intro h c measured op outcomes hidle
  obtain ⟨threshold, hp⟩ : ∃ threshold, Present context line threshold c :=
    exists_present_run g memory h ops hcontext hline
  obtain ⟨l, hl⟩ : ∃ l, c.table.lines[line]? = some l := ⟨_, Array.getElem?_eq_getElem hp.lt_size⟩
  rw [LineTable.isPending_eq hl] at hidle
  have hrun := runTrials_eq_trials { line, maxPolls := plan.maxPolls } hp h plan.trials
  have hgauged : Gauged line plan.maxPolls c.table outcomes
      (trialsEvents h context line plan.maxPolls plan.trials c)
      (trials h context line plan.maxPolls plan.trials c).2 :=
    gauged_trials hp hl hidle acknowledged plan.maxPolls plan.trials
  have hnow := (Accounts.trials hp h plan.maxPolls plan.trials).elapsed.now
  have hrecord : (c.run h [op]).2.record = (c.services h [op]).foldl ServiceRecord.enter c.record :=
    record_run_of_no_reset h c (by simp [op])
  have hhistory : c.history h [op] = trialsEvents h context line plan.maxPolls plan.trials c :=
    List.append_nil _
  have hrecorded : (servicesOf line (c.services h [op])).map Prod.snd =
      (charged plan.maxPolls [] outcomes).map some := by
    show (servicesOf line (c.table.services (c.history h [op]))).map Prod.snd = _
    rw [hhistory]
    exact hgauged.recorded
  have hlast : c.table.now + (charged plan.maxPolls [] outcomes).sum =
      c.table.lastServed line (c.history h [op]) := by
    rw [hhistory]
    exact hgauged.now_add_sum_charged hnow
  refine ⟨_, charged plan.maxPolls [] outcomes, congrArg Prod.fst hrun, ?_⟩
  rw [LatencyReport.foldl_enter]
  refine ⟨by simp [outcomes], by simp [outcomes], hrecord, hrecorded, hlast, ?_, ?_, ?_⟩
  · simpa [outcomes] using sum_charged_nil plan.maxPolls outcomes
  · intro hall
    have hcomplete : outcomes.countP Option.isNone = 0 := by simpa [outcomes] using hall
    simpa [outcomes] using charged_of_all_complete rfl hcomplete
  · intro first polls rest hsplit
    rw [hsplit]
    exact ⟨charged plan.maxPolls [] first, charged plan.maxPolls (first ++ [some polls]) rest,
      charged_append_cons .., length_charged .., length_charged ..⟩

/-- Two edge lines stand ahead of the measured level line, and a budget of one poll runs out on each
of them. So the first trial that completes, with its one poll, is recorded with a wait of three. -/
theorem instruments_agree_of_overtaken :
    let h : Handler Unit := .plain true
    let g : Geometry := { lines := 3 }
    let ready (line : Nat) (priority : UInt8) (trigger : Trigger) : List Operation :=
      [.access (.command (.configure line priority ⟨trigger, .positive⟩)),
        .access (.command (.enable line))]
    let ops := ready 0 1 .edge ++ ready 1 2 .edge ++ ready 2 3 .level ++
      [.access (.command (.setPending 0)), .access (.command (.setPending 1))]
    let c := ((ofGeometry g ()).run h ops).2
    let op := Operation.measureLatency 0 2 ⟨4, 1⟩
    0 < g.contexts ∧ 2 < g.lines ∧ c.table.isPending 2 = false ∧
      (trials h 0 2 1 4 c).1 = [none, none, some 1, some 1] ∧
      ∃ recorded,
        (servicesOf 2 (c.services h [op])).map Prod.snd = recorded.map some ∧
        c.table.now + recorded.sum = c.table.lastServed 2 (c.history h [op]) ∧
        recorded = [3, 1] := by
  intro h g ready ops c op
  have hcontext : 0 < g.contexts := by decide
  have hline : 2 < g.lines := by decide
  have hidle : c.table.isPending 2 = false := by decide +kernel
  have houtcomes : (trials h 0 2 1 4 c).1 = [none, none, some 1, some 1] := by decide +kernel
  obtain ⟨-, recorded, -, -, -, -, hrecorded, hlast, -, -, hsplit⟩ :=
    instruments_agree true g () ops hcontext hline ⟨4, 1⟩ hidle
  have hc : ((ofGeometry g ()).run h ops).2 = c := rfl
  rw [hc] at hrecorded hlast hsplit
  obtain ⟨earlier, later, hfirst, hearlier, -⟩ := hsplit [none, none] 1 [some 1] houtcomes
  obtain ⟨earlier', later', hsecond, hearlier', hlater'⟩ :=
    hsplit [none, none, some 1] 1 [] houtcomes
  cases List.eq_nil_of_length_eq_zero hearlier
  cases List.eq_nil_of_length_eq_zero hlater'
  obtain ⟨wait, rfl⟩ := List.length_eq_one_iff.mp hearlier'
  have hall : recorded = [3, 1] := by
    rw [hsecond] at hfirst ⊢
    obtain ⟨hwait, -⟩ := List.cons.inj hfirst
    rw [hwait]
    rfl
  exact ⟨hcontext, hline, hidle, houtcomes, recorded, hrecorded, hlast, hall⟩

end Controller

end Irq
