import Irq.Proofs.Intact
import Irq.Proofs.Services
import Mathlib.Algebra.GroupWithZero.Nat

/-!
# Irq.Proofs.Waits

What the recorded waits measure. The wait of a line starts anew when its pending bit goes from clear
to set, and when it is serviced while it is level triggered; what a service records is the number of
polls begun since that last happened. This is said of the events of a run alone, without the stamps
by which a controller keeps track of it (`Tracked`).
-/

namespace Irq

/-- Whether the wait of a line starts anew: its pending bit goes from clear to set, or it is
serviced while it is level triggered. -/
def Moment.restarts (line : Nat) (m : Moment) : Bool :=
  (!m.before.isPending line && m.after.isPending line) ||
    (m.serves line && m.before.isTriggered line .level)

/-- The number of polls begun since the wait of a line last started anew. -/
def pollsSince (line : Nat) (past : List Moment) : Nat :=
  (past.rtakeWhile fun m => !m.restarts line).countP Moment.isPoll

/-- The waits of the services among moments, each by what went before it. -/
def waits (past : List Moment) : List Moment → List Nat
  | [] => []
  | m :: ms =>
    (m.event.delivery?.toList.map fun d => pollsSince d.line past) ++ waits (past ++ [m]) ms

/-- The polls since a line's last restart, one moment later. -/
theorem pollsSince_concat (line : Nat) (past : List Moment) (m : Moment) :
    pollsSince line (past ++ [m]) =
      if m.restarts line then 0 else pollsSince line past + m.isPoll.toNat := by
  unfold pollsSince
  cases hr : m.restarts line with
  | true => rw [List.rtakeWhile_concat_neg _ _ _ (by simp [hr])]; rfl
  | false =>
    rw [List.rtakeWhile_concat_pos _ _ _ (by simp [hr]), List.countP_append]
    cases hm : m.isPoll <;> simp [hm]

/-! ## What an event does to a stamp -/

namespace Line

theorem since_raise (now : Nat) (l : Line) :
    (l.raise now).since = if l.pending then l.since else some now := by
  unfold raise
  split <;> rfl

/-- A sample that leaves a line pending stamps it unless it was pending before. -/
theorem since_sample {now : Nat} {signal : Bool} {l : Line}
    (hp : (l.sample now signal).pending = true) :
    (l.sample now signal).since = if l.pending then l.since else some now := by
  unfold sample at hp ⊢
  cases ht : l.attributes.trigger with
  | edge =>
    simp only [ht] at hp ⊢
    split at hp
    · next ha =>
      rw [if_pos ha]
      exact since_raise now _
    · next ha =>
      rw [if_neg ha, if_pos hp]
  | level =>
    simp only [ht] at hp ⊢
    split at hp
    · next ha =>
      rw [if_pos ha]
      exact since_raise now _
    · simp at hp

end Line

/-- A command that leaves a line pending leaves its stamp alone, or stamps a new request. -/
theorem LineTable.since_effect {t : LineTable} {l : Line} {cmd : Command}
    (hp : (t.effect cmd l).pending = true) :
    (t.effect cmd l).since = if l.pending then l.since else some t.now := by
  cases cmd with
  | configure | setPriority | setAttributes | enable | disable => exact (if_pos hp).symm
  | setPending => exact Line.since_raise t.now l
  | sample _ signal => exact Line.since_sample hp
  | clearPending | reset => simp [effect, Line.clear] at hp

namespace Moment

/-- A poll restarts no wait. -/
theorem restarts_of_isPoll {m : Moment} (line : Nat) (hm : m.isPoll = true) :
    m.restarts line = false := by
  obtain ⟨t, e⟩ := m
  cases eq_of_beq hm
  have hsame : after ⟨t, .tick⟩ = t.tick := rfl
  have hlines : t.tick.isPending line = t.isPending line := rfl
  simp [restarts, serves, Event.delivery?, hsame, hlines]

/-- **What a moment does to a stamp**: if the line is pending after it, then either its wait starts
anew and it carries the present stamp, or it has been pending before and keeps its stamp. -/
theorem since_after {m : Moment} {line : Nat} {l : Line} (hl : m.before.lines[line]? = some l)
    (hp : (m.event.effect m.before line l).pending = true) :
    if m.restarts line then (m.event.effect m.before line l).since = some m.before.now
    else l.pending = true ∧ (m.event.effect m.before line l).since = l.since := by
  obtain ⟨t, e⟩ := m
  have hafter : (t.happen e).isPending line = (e.effect t line l).pending :=
    LineTable.isPending_happen hl e
  simp only [restarts, after, LineTable.isPending_eq hl, hafter, LineTable.isTriggered, hl] at hp ⊢
  rw [hp]
  cases e with
  | command cmd =>
    simp only [Event.effect] at hp ⊢
    split at hp
    · next hc =>
      have hsince := LineTable.since_effect hp
      cases hpend : l.pending <;> simp_all [serves, Event.delivery?]
    · next hc => simp [hc, hp, serves, Event.delivery?]
  | delivery d =>
    simp only [Event.effect] at hp ⊢
    by_cases hd : d.line = line
    · rw [if_pos hd] at hp
      cases ht : l.attributes.trigger with
      | edge => simp [Line.serve, ht] at hp
      | level => simp [serves, Event.delivery?, hd, Line.serve, ht]
    · rw [if_neg hd] at hp
      simp [serves, Event.delivery?, hd, hp]
  | threshold _ _ | tick | cleared =>
    have hpend : l.pending = true := hp
    simp [serves, Event.delivery?, Event.effect, hpend]

end Moment

/-! ## The stamp tells of the last restart -/

/-- What stamps keep track of: the wait of a pending line has started, and its stamp lies as many
polls back as have begun since then. -/
def Tracked (line : Nat) (past : List Moment) (t : LineTable) : Prop :=
  ∀ l, t.lines[line]? = some l → l.pending = true →
    (∃ m ∈ past, m.restarts line = true) ∧
      ∃ s, l.since = some s ∧ s + pollsSince line past = t.now

namespace Tracked

/-- A stamp that tells the wait so far tells it after another event. At a restart, which is no poll,
the stamp is the present clock; else clock and count move alike. -/
theorem happen {line : Nat} {past : List Moment} {t : LineTable} (ht : Tracked line past t)
    (e : Event) : Tracked line (past ++ [⟨t, e⟩]) (t.happen e) := by
  intro l' hl' hp
  rw [LineTable.getElem?_happen] at hl'
  obtain ⟨l, hl, rfl⟩ := Option.map_eq_some_iff.mp hl'
  have hsince := Moment.since_after (m := ⟨t, e⟩) hl hp
  have hnow : (t.happen e).now = t.now + (Moment.isPoll ⟨t, e⟩).toNat := by
    cases e <;> simp [LineTable.happen, LineTable.tick, LineTable.serve, Moment.isPoll]
  rw [pollsSince_concat, hnow]
  cases hr : Moment.restarts line ⟨t, e⟩ with
  | true =>
    have hpoll : Moment.isPoll ⟨t, e⟩ = false := by
      by_contra hpoll
      rw [Moment.restarts_of_isPoll line (by simpa using hpoll)] at hr
      cases hr
    rw [hr, if_pos rfl] at hsince
    exact ⟨⟨_, List.mem_append_right _ List.mem_cons_self, hr⟩, t.now, hsince, by simp [hpoll]⟩
  | false =>
    rw [hr] at hsince
    obtain ⟨hpend, hkept⟩ := hsince
    obtain ⟨⟨m, hm, hmr⟩, s, hs, hpolls⟩ := ht l hl hpend
    refine ⟨⟨m, List.mem_append_left _ hm, hmr⟩, s, hkept.trans hs, ?_⟩
    simp only [Bool.false_eq_true, if_false]
    omega

/-- A stamp that tells the wait so far tells it after any events. -/
theorem replay {line : Nat} {past : List Moment} {t : LineTable} (ht : Tracked line past t)
    (es : List Event) : Tracked line (past ++ t.moments es) (t.replay es) :=
  @LineTable.replay_invariant (Tracked line) (fun e htracked => htracked.happen e) past t ht es

end Tracked

/-! ## The summary of waits -/

/-- The summary of a list of waits: how many they are, their sum, the shortest and the longest. -/
def WaitSummary.of (ws : List Nat) : WaitSummary := ⟨ws.length, ws.sum, ws.min?, ws.max?⟩

/-- A wait more is added to the summary. -/
theorem WaitSummary.of_concat (ws : List Nat) (w : Nat) : of (ws ++ [w]) = (of ws).add w := by
  cases ws with
  | nil => simp [of, add]
  | cons v ws =>
    have hmin : (v :: ws ++ [w]).min? = some (min ((v :: ws).min?.getD w) w) := by
      rw [List.cons_append, List.min?_cons', List.min?_cons', List.foldl_append]
      rfl
    have hmax : (v :: ws ++ [w]).max? = some (max ((v :: ws).max?.getD w) w) := by
      rw [List.cons_append, List.max?_cons', List.max?_cons', List.foldl_append]
      rfl
    rw [of, hmin, hmax]
    simp [of, add, Nat.add_assoc]

/-- Services that are recorded with these waits add them to the summary. -/
theorem ServiceRecord.waits_foldl_enter {r : ServiceRecord} {earlier ws : List Nat}
    {services : List (Delivery × Option Nat)} (hr : r.waits = .of earlier)
    (hws : services.map Prod.snd = ws.map some) :
    (services.foldl enter r).waits = .of (earlier ++ ws) := by
  induction services generalizing r earlier ws with
  | nil =>
    have hnil : ws = [] := by simpa using hws.symm
    rw [hnil, List.append_nil]
    exact hr
  | cons s services ih =>
    cases ws with
    | nil => simp at hws
    | cons w ws =>
      rw [List.map_cons, List.map_cons, List.cons.injEq] at hws
      have hnext : (r.enter s).waits = .of (earlier ++ [w]) := by
        rw [WaitSummary.of_concat, ← hr, enter, hws.1]
        rfl
      have hrest := ih hnext hws.2
      rw [List.append_assoc] at hrest
      exact hrest

/-- If every service is recorded with the number of polls since the last restart, then these are the
waits of the services. -/
theorem LineTable.map_snd_services {past : List Moment} {t : LineTable} {es : List Event}
    (hes : ∀ first d rest, es = first ++ .delivery d :: rest →
      (t.replay first).waited d.line = some (pollsSince d.line (past ++ t.moments first))) :
    ((t.moments es).filterMap Moment.service?).map Prod.snd =
      (waits past (t.moments es)).map some := by
  induction es generalizing past t with
  | nil => rfl
  | cons e es ih =>
    have hrest := @ih (past ++ [⟨t, e⟩]) (t.happen e) fun first d rest hsplit => by
      have hlater := hes (e :: first) d rest (by rw [hsplit]; rfl)
      rw [List.append_assoc]
      exact hlater
    rw [moments, waits, List.map_append, ← hrest, List.filterMap_cons]
    cases e with
    | delivery d =>
      have hwait := hes [] d es rfl
      rw [replay_nil, moments, List.append_nil] at hwait
      simp [Moment.service?, Event.delivery?, hwait]
    | command | threshold | tick | cleared => simp [Moment.service?, Event.delivery?]

namespace Controller

variable {σ : Type}

/-- In a new controller there is no wait to tell. -/
theorem tracked_ofGeometry (g : Geometry) (memory : σ) (line : Nat) :
    Tracked line [] (ofGeometry g memory).table := by
  intro l hl hp
  rw [LineTable.eq_default_of_ofSize hl] at hp
  cases hp

/-- The wait that a service is recorded with. -/
theorem waited_of_delivery (g : Geometry) (memory : σ) (h : Handler σ) (ops : List Operation)
    {before after : List Event} {d : Delivery}
    (hes : (ofGeometry g memory).history h ops = before ++ .delivery d :: after) :
    let past := (ofGeometry g memory).table.moments before
    (∃ m ∈ past, m.restarts d.line = true) ∧
      ((ofGeometry g memory).table.replay before).waited d.line =
        some (pollsSince d.line past) ∧ 1 ≤ pollsSince d.line past := by
  intro past
  let m : Moment := ⟨(ofGeometry g memory).table.replay before, .delivery d⟩
  have hm : m ∈ (ofGeometry g memory).moments h ops :=
    LineTable.mem_moments_iff.mpr ⟨before, after, hes, rfl⟩
  obtain ⟨l, hl, hactive, -⟩ := active_of_delivery hm rfl
  rw [Line.isActive, Bool.and_eq_true] at hactive
  obtain ⟨hrestart, s, hs, hpolls⟩ :=
    (tracked_ofGeometry g memory d.line).replay before l hl hactive.2
  refine ⟨hrestart, ?_, ?_⟩
  · show m.before.waited d.line = _
    rw [LineTable.waited, hl, Option.bind_some, Line.waited, hs, Option.map_some]
    change s + pollsSince d.line past = m.before.now at hpolls
    exact congrArg some (by omega)
  · obtain ⟨earlier, _, hearlier, -⟩ := (course_run h _ ops).of_delivery hes
    have hpast : past = (ofGeometry g memory).table.moments earlier ++
        [⟨(ofGeometry g memory).table.replay earlier, .tick⟩] := by
      show LineTable.moments _ before = _
      rw [hearlier, LineTable.moments_append]
      rfl
    rw [hpast, pollsSince_concat, Moment.restarts_of_isPoll _ rfl, if_neg Bool.false_ne_true]
    exact Nat.le_add_left 1 _

/-- **Recorded waits are exact.** Every service of every run is recorded with a wait, and this is
the number of polls begun since the wait of its line last started anew: at least one, that of the
service itself. And at every point the summary of the record is that of the waits since the last
reset, each counted over the whole run, since it may have begun before the reset. -/
theorem recorded_waits (g : Geometry) (memory : σ) (h : Handler σ) (ops : List Operation) :
    let start := ofGeometry g memory
    let restart := (start.run h (upToReset ops)).2
    (∀ before d after, start.history h ops = before ++ .delivery d :: after →
      let past := start.table.moments before
      (∃ m ∈ past, m.restarts d.line = true) ∧
        (start.table.replay before).waited d.line = some (pollsSince d.line past) ∧
        1 ≤ pollsSince d.line past) ∧
      (start.run h ops).2.record.waits =
        .of (waits (start.moments h (upToReset ops)) (restart.moments h (sinceReset ops))) := by
  intro start restart
  refine ⟨fun before d after hes => waited_of_delivery g memory h ops hes, ?_⟩
  have htable : restart.table = start.table.replay (start.history h (upToReset ops)) :=
    (course_run h start (upToReset ops)).table
  have hhistory : start.history h ops =
      start.history h (upToReset ops) ++ restart.history h (sinceReset ops) := by
    rw [← history_append, upToReset_append_sinceReset]
  rw [record_run]
  have hnew : (ServiceRecord.ofSize g.lines).waits = .of [] := rfl
  refine ServiceRecord.waits_foldl_enter hnew (LineTable.map_snd_services ?_)
  intro first d rest hes
  rw [hes, ← List.append_assoc] at hhistory
  obtain ⟨-, hwaited, -⟩ := waited_of_delivery g memory h ops hhistory
  rw [LineTable.replay_append, LineTable.moments_append, ← htable] at hwaited
  exact hwaited

end Controller

end Irq
