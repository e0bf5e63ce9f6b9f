import Irq.Proofs.CallLog
import Mathlib.Data.List.DropRight

/-!
# Irq.Proofs.PendingBit

What makes a line pending. Events of two kinds matter to a line: those that raise its request and
those that lower it (`Moment.raises`, `Moment.lowers`). At every point of a run a line is pending if
it has been raised and not lowered since it was last raised, and nothing but these events ever
changes the bit. What raises an edge line depends on the signal last sampled on its input, which a
line keeps to itself; here it is read off the past instead (`lastSignal`).
-/

namespace Irq

/-! ## The events that matter -/

/-- The signal that an event samples on a line, if it does. -/
def Event.signal? (line : Nat) : Event → Option Bool
  | command (.sample id signal) => if id = line then some signal else none
  | command _ | threshold _ _ | tick | delivery _ | cleared => none

/-- The signal last sampled on a line since the last reset; low if there is none. -/
def lastSignal (line : Nat) (past : List Moment) : Bool :=
  ((past.rtakeWhile (·.event != .command .reset)).filterMap
    (·.event.signal? line)).getLast?.getD false

/-- Whether a signal is the asserted one of a line that exists. -/
def LineTable.asserts (t : LineTable) (line : Nat) (signal : Bool) : Bool :=
  t.lines[line]?.any fun l => l.attributes.polarity.asserts signal

namespace Moment

/-- Whether a moment raises the request of a line. A sample does so if it is asserted and the line
is level triggered, or edge triggered and last sampled otherwise. -/
def raises (line : Nat) (past : List Moment) (m : Moment) : Bool :=
  match m.event with
  | .command (.setPending id) => id == line
  | .command (.sample id signal) =>
    id == line && m.before.asserts line signal &&
      (m.before.isTriggered line .level ||
        m.before.isTriggered line .edge && signal != lastSignal line past)
  | _ => false

/-- Whether a moment lowers the request of a line. A sample does so if it is not asserted and the
line is level triggered, a service if the line is edge triggered. -/
def lowers (line : Nat) (m : Moment) : Bool :=
  match m.event with
  | .command (.clearPending id) => id == line
  | .command (.sample id signal) =>
    id == line && !m.before.asserts line signal && m.before.isTriggered line .level
  | .command .reset => true
  | .delivery d => d.line == line && m.before.isTriggered line .edge
  | _ => false

end Moment

/-- Whether a request is outstanding: some moment of the past has raised it, and no later one has
raised it again or lowered it. -/
def Outstanding (line : Nat) (past : List Moment) : Prop :=
  ∃ earlier m later, past = earlier ++ m :: later ∧ m.raises line earlier = true ∧
    ∀ before m' after, later = before ++ m' :: after →
      m'.raises line (earlier ++ m :: before) = false ∧ m'.lowers line = false

/-! ## One moment more -/

/-- The level last sampled, one moment later. -/
theorem lastSignal_concat (line : Nat) (past : List Moment) (m : Moment) :
    lastSignal line (past ++ [m]) =
      if m.event = .command .reset then false
      else (m.event.signal? line).getD (lastSignal line past) := by
  unfold lastSignal
  by_cases hreset : m.event = .command .reset
  · rw [if_pos hreset, List.rtakeWhile_concat_neg _ _ _ (by simp [hreset])]
    rfl
  · rw [if_neg hreset, List.rtakeWhile_concat_pos _ _ _ (by simp [hreset]), List.filterMap_append]
    cases hs : m.event.signal? line <;> simp [hs]

/-- A request that is raised now is outstanding. -/
theorem outstanding_of_raises {line : Nat} {past : List Moment} {m : Moment}
    (hraises : m.raises line past = true) : Outstanding line (past ++ [m]) := by
  refine ⟨past, m, [], rfl, hraises, ?_⟩
  intro before m' after hsplit
  simp at hsplit

/-- A request stays outstanding until it is raised again or lowered. -/
theorem Outstanding.concat {line : Nat} {past : List Moment} {m : Moment}
    (hout : Outstanding line past) (hraises : m.raises line past = false)
    (hlowers : m.lowers line = false) : Outstanding line (past ++ [m]) := by
  obtain ⟨earlier, raiser, later, rfl, hraised, hlater⟩ := hout
  refine ⟨earlier, raiser, later ++ [m], by simp, hraised, ?_⟩
  intro before m' after hsplit
  rcases List.eq_nil_or_concat' after with rfl | ⟨after, last, rfl⟩
  · obtain ⟨rfl, hm⟩ := List.append_inj' hsplit rfl
    cases hm
    exact ⟨hraises, hlowers⟩
  · rw [← List.cons_append, ← List.append_assoc] at hsplit
    obtain ⟨rfl, -⟩ := List.append_inj' hsplit rfl
    exact hlater before m' after rfl

/-- An outstanding request is raised now, or was outstanding before and is not lowered now. -/
theorem Outstanding.of_concat {line : Nat} {past : List Moment} {m : Moment}
    (hout : Outstanding line (past ++ [m])) :
    m.raises line past = true ∨ Outstanding line past ∧ m.lowers line = false := by
  obtain ⟨earlier, raiser, later, hpast, hraised, hlater⟩ := hout
  rcases List.eq_nil_or_concat' later with rfl | ⟨later, last, rfl⟩
  · obtain ⟨rfl, hm⟩ := List.append_inj' hpast rfl
    cases hm
    exact .inl hraised
  · rw [← List.cons_append, ← List.append_assoc] at hpast
    obtain ⟨rfl, hm⟩ := List.append_inj' hpast rfl
    cases hm
    refine .inr ⟨⟨earlier, raiser, later, rfl, hraised, ?_⟩, (hlater later m [] rfl).2⟩
    intro before m' after hsplit
    exact hlater before m' (after ++ [m]) (by simp [hsplit])

/-- **The law of the outstanding request**: the last moment raises it, or it has been outstanding
and the last moment does not lower it. -/
theorem outstanding_concat_iff {line : Nat} {past : List Moment} {m : Moment} :
    Outstanding line (past ++ [m]) ↔
      m.raises line past = true ∨ Outstanding line past ∧ m.lowers line = false := by
  cases hraises : m.raises line past with
  | true => simp [outstanding_of_raises hraises]
  | false =>
    constructor
    · exact fun hout => .inr (hout.of_concat.resolve_left (by simp [hraises]))
    · intro hlast
      obtain ⟨hout, hlowers⟩ := hlast.resolve_left Bool.false_ne_true
      exact hout.concat hraises hlowers

/-- Before the first moment nothing is outstanding. -/
theorem not_outstanding_nil (line : Nat) : ¬ Outstanding line [] := by
  rintro ⟨earlier, m, later, hpast, -⟩
  simp at hpast

/-! ## What a moment makes of a line -/

/-- A command that concerns a line leaves the signal on its input that it samples; a reset leaves
none, and the others leave what there is. -/
theorem LineTable.input_effect {t : LineTable} {cmd : Command} {line : Nat} {l : Line}
    (hc : cmd.concerns line = true) :
    (t.effect cmd l).input =
      if cmd = .reset then false else ((Event.command cmd).signal? line).getD l.input := by
  cases cmd <;>
    simp_all [effect, Event.signal?, Command.concerns, Command.line?, Line.lower, Line.clear]

namespace Moment

variable {m : Moment} {line : Nat} {l : Line} {past : List Moment}

/-- The input of a line carries the signal last sampled on it. -/
theorem input_after (hinput : l.input = lastSignal line past) :
    (m.event.effect m.before line l).input = lastSignal line (past ++ [m]) := by
  rw [lastSignal_concat, ← hinput]
  obtain ⟨t, e⟩ := m
  cases e with
  | command cmd =>
    by_cases hc : cmd.concerns line = true
    · simp only [Event.effect, if_pos hc, LineTable.input_effect hc, Event.command.injEq]
    · have hreset : cmd ≠ .reset := fun heq => hc (by rw [heq]; rfl)
      have hsignal : (Event.command cmd).signal? line = none := by
        cases cmd <;> simp_all [Event.signal?, Command.concerns, Command.line?]
      simp [Event.effect, hc, hreset, hsignal]
  | delivery d =>
    by_cases hd : d.line = line <;> simp [Event.effect, Event.signal?, hd]
  | threshold _ _ | tick | cleared => simp [Event.effect, Event.signal?]

/-- **What a moment makes of the pending bit**: it sets the bit if it raises the request, clears it
if it lowers the request, and else leaves it alone. -/
theorem pending_after (hl : m.before.lines[line]? = some l)
    (hinput : l.input = lastSignal line past) :
    (m.event.effect m.before line l).pending =
      (m.raises line past || (l.pending && !m.lowers line)) := by
  obtain ⟨t, e⟩ := m
  have hasserts (signal : Bool) : t.asserts line signal = l.attributes.polarity.asserts signal := by
    rw [LineTable.asserts, hl, Option.any_some]
  have htriggered (trigger : Trigger) :
      t.isTriggered line trigger = (l.attributes.trigger == trigger) :=
    LineTable.isTriggered_eq hl trigger
  cases e with
  | command cmd =>
    by_cases hc : cmd.concerns line = true
    · simp only [Event.effect, if_pos hc]
      cases cmd with
      | setPending id | clearPending id =>
        have hid : (id == line) = true := hc
        simp [raises, lowers, LineTable.effect, hid]
      | sample id signal =>
        have hid : (id == line) = true := hc
        simp only [raises, lowers, LineTable.effect, hid, Line.pending_sample, hasserts,
          htriggered, ← hinput]
        cases l.attributes.trigger <;> cases l.attributes.polarity.asserts signal <;>
          cases l.pending <;> simp
      | reset => simp [raises, lowers, LineTable.effect, Line.clear]
      | configure | setPriority | setAttributes | enable | disable =>
        simp [raises, lowers, LineTable.effect]
    · have hneither : raises line past ⟨t, .command cmd⟩ = false ∧
          lowers line ⟨t, .command cmd⟩ = false := by
        cases cmd <;> simp_all [raises, lowers, Command.concerns, Command.line?]
      simp [Event.effect, hc, hneither]
  | delivery d =>
    by_cases hd : d.line = line
    · have hserve : (Event.delivery d).effect t line l = l.serve t.now := if_pos hd
      rw [hserve, Line.pending_serve]
      simp only [raises, lowers, hd, htriggered]
      cases l.attributes.trigger <;> simp
    · simp [Event.effect, raises, lowers, hd]
  | threshold _ _ | tick | cleared => simp [Event.effect, raises, lowers]

end Moment

/-! ## The line tells of its past -/

/-- What a line shows of the past: the signal last sampled on it, and whether its request is
outstanding. -/
def Shows (line : Nat) (past : List Moment) (t : LineTable) : Prop :=
  ∀ l, t.lines[line]? = some l →
    l.input = lastSignal line past ∧ (l.pending = true ↔ Outstanding line past)

namespace Shows

variable {line : Nat} {past : List Moment} {t : LineTable}

/-- What the past shows of a line, it shows after another event. -/
theorem happen (ht : Shows line past t) (e : Event) :
    Shows line (past ++ [⟨t, e⟩]) (t.happen e) := by
  intro l' hl'
  rw [LineTable.getElem?_happen] at hl'
  obtain ⟨l, hl, rfl⟩ := Option.map_eq_some_iff.mp hl'
  obtain ⟨hinput, hpending⟩ := ht l hl
  have hafter := Moment.pending_after (m := ⟨t, e⟩) hl hinput
  refine ⟨Moment.input_after (m := ⟨t, e⟩) hinput, ?_⟩
  rw [outstanding_concat_iff, ← hpending, hafter, Bool.or_eq_true, Bool.and_eq_true,
    Bool.not_eq_true']

/-- What the past shows of a line, it shows after any events. -/
theorem replay (ht : Shows line past t) (es : List Event) :
    Shows line (past ++ t.moments es) (t.replay es) :=
  @LineTable.replay_invariant (Shows line) (fun e hshows => hshows.happen e) past t ht es

/-- A line that exists is pending exactly if a request is outstanding. -/
theorem isPending_iff (ht : Shows line past t) :
    t.isPending line = true ↔ line < t.size ∧ Outstanding line past := by
  rw [LineTable.isPending, Option.any_eq_true]
  constructor
  · rintro ⟨l, hl, hp⟩
    exact ⟨(Array.getElem?_eq_some_iff.mp hl).1, (ht l hl).2.mp hp⟩
  · rintro ⟨hlt, hout⟩
    have hl : t.lines[line]? = some t.lines[line] := Array.getElem?_eq_getElem hlt
    exact ⟨_, hl, (ht _ hl).2.mpr hout⟩

end Shows

namespace Controller

variable {σ : Type}

/-- A new controller has no past. -/
theorem shows_ofGeometry (g : Geometry) (memory : σ) (line : Nat) :
    Shows line [] (ofGeometry g memory).table := by
  intro l hl
  rw [LineTable.eq_default_of_ofSize hl]
  exact ⟨rfl, by simp [not_outstanding_nil]⟩

/-- The pending bit after any events that happen to a new controller. -/
theorem isPending_replay_iff (g : Geometry) (memory : σ) (events : List Event) (line : Nat) :
    ((ofGeometry g memory).table.replay events).isPending line = true ↔
      line < g.lines ∧ Outstanding line ((ofGeometry g memory).table.moments events) := by
  have hsize : (ofGeometry g memory).table.size = g.lines := LineTable.size_ofSize _ _
  have hshows := (shows_ofGeometry g memory line).replay events
  rw [hshows.isPending_iff, LineTable.size_replay, hsize, List.nil_append]

/-- **The last event that matters settles whether a line is pending.** After any run, between any
two of its events and before and after every call of its handler, a line is pending exactly if it
exists and its request is outstanding; and an event that neither raises nor lowers the request
leaves the bit as it is. -/
theorem pending_iff_outstanding (g : Geometry) (memory : σ) (h : Handler σ) (ops : List Operation)
    (line : Nat) :
    let start := ofGeometry g memory
    let history := start.history h ops
    ((start.run h ops).2.table.isPending line = true ↔
      line < g.lines ∧ Outstanding line (start.moments h ops)) ∧
    (∀ first, first <+: history → ((start.table.replay first).isPending line = true ↔
      line < g.lines ∧ Outstanding line (start.table.moments first))) ∧
    (∀ call ∈ start.calls h ops, ∃ (first rest : List Event) (cmds : List Command),
      history = first ++ .delivery call.delivery :: (cmds.map .command ++ rest) ∧
        (call.given.isPending line = true ↔ line < g.lines ∧
          Outstanding line (start.table.moments (first ++ [.delivery call.delivery]))) ∧
        (call.left.isPending line = true ↔ line < g.lines ∧
          Outstanding line (start.table.moments
            (first ++ .delivery call.delivery :: cmds.map .command)))) ∧
    ∀ first e rest, history = first ++ e :: rest →
      let m : Moment := ⟨start.table.replay first, e⟩
      m.raises line (start.table.moments first) = false → m.lowers line = false →
        m.after.isPending line = m.before.isPending line := by
  intro start history
  have hpoint := isPending_replay_iff g memory
  refine ⟨?_, fun first _ => hpoint first line, ?_, ?_⟩
  · rw [(course_run h start ops).table]
    exact hpoint history line
  · intro call hcall
    have hwithin : Call.Within start.table history call := of_mem_calls hcall
    obtain ⟨first, cmds, rest, hes, hgiven, hleft⟩ := hwithin
    refine ⟨first, rest, cmds, hes, ?_, ?_⟩
    · rw [hgiven]
      exact hpoint _ line
    · rw [hleft, hgiven, LineTable.applyAll_replay]
      exact hpoint _ line
  · intro first e rest _ m hraises hlowers
    have hafter : m.after = start.table.replay (first ++ [e]) := by
      rw [LineTable.replay_append]
      rfl
    have hmoments : start.table.moments (first ++ [e]) = start.table.moments first ++ [m] :=
      LineTable.moments_append _ _ _
    rw [Bool.eq_iff_iff, hafter, hpoint (first ++ [e]) line, hpoint first line, hmoments,
      outstanding_concat_iff, hraises, hlowers]
    simp [start]

/-- The signal sampled while a line is level triggered counts when it is edge triggered later: the
same signal is then no transition, and the opposite one and back is. -/
example :
    let h : Handler Unit := .passive
    let start := ofGeometry { lines := 1, contexts := 1 } ()
    let ops : List Operation :=
      [.access (.command (.configure 0 0 ⟨.level, .negative⟩)),
        .access (.command (.sample 0 true)),
        .access (.command (.configure 0 0 ⟨.edge, .positive⟩)),
        .access (.command (.sample 0 true))]
    let pulse : List Operation :=
      [.access (.command (.sample 0 false)), .access (.command (.sample 0 true))]
    (start.run h ops).2.table.isPending 0 = false ∧
      (start.run h (ops ++ pulse)).2.table.isPending 0 = true := by decide

end Controller

end Irq
