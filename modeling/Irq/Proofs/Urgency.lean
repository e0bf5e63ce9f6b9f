import Irq.Proofs.ContextQueue
import Irq.Proofs.Independence

/-!
# Irq.Proofs.Urgency

Which line a context is presented. Arbitration runs through the lines once and keeps a leader; said
without it, the line is the one of all competing lines that every other comes behind
(`selectNext_eq_most_urgent`). The threshold of the context takes part in this only at the end:
since what comes behind a blocked line is blocked as well, the line chosen under threshold 0 is
presented or none is (`winner_eq_filter`). So contexts never disagree about the line, and a looser
threshold never takes it back (`threshold_decides_whether`).
-/

namespace Irq

/-- Whether a line competes for service under a threshold: it is enabled and pending, and the
threshold is 0 or lies above its priority. -/
def Line.Competes (threshold : UInt8) (l : Line) : Prop :=
  l.enabled = true ∧ l.pending = true ∧ (threshold = 0 ∨ l.priority < threshold)

/-- Whether a line competes and every other line that does is less urgent: it has a larger priority
value, or the same one and a larger number. -/
def LineTable.MostUrgent (t : LineTable) (threshold : UInt8) (line : Nat) : Prop :=
  ∃ l, t.lines[line]? = some l ∧ l.Competes threshold ∧
    ∀ other l', other ≠ line → t.lines[other]? = some l' → l'.Competes threshold →
      l.priority < l'.priority ∨ (l.priority = l'.priority ∧ line < other)

/-- A priority passes where nothing is blocked, or where it is more urgent than the threshold. -/
theorem blocks_eq_false_iff {threshold priority : UInt8} :
    blocks threshold priority = false ↔ threshold = 0 ∨ priority < threshold := by
  simp [blocks, imp_iff_not_or, UInt8.not_le]

theorem Request.passes_iff {threshold : UInt8} {r : Request} :
    r.passes threshold = true ↔ threshold = 0 ∨ r.priority < threshold := by
  rw [passes, Bool.not_eq_true', blocks_eq_false_iff]

/-- A looser threshold, one that is raised or given up, lets no less pass. -/
theorem Request.passes_of_looser {threshold level : UInt8} {r : Request}
    (hlooser : level = 0 ∨ threshold ≠ 0 ∧ threshold ≤ level)
    (hpasses : r.passes threshold = true) : r.passes level = true := by
  rw [passes_iff] at hpasses ⊢
  rcases hlooser with hzero | ⟨hne, hle⟩
  · exact .inl hzero
  · exact .inr (UInt8.lt_of_lt_of_le (hpasses.resolve_left hne) hle)

theorem Line.isEligible_iff {threshold : UInt8} {l : Line} :
    l.isEligible threshold = true ↔ l.Competes threshold := by
  simp [isEligible, isActive, Competes, blocks_eq_false_iff, and_assoc]

namespace LineTable

variable {t : LineTable} {threshold : UInt8} {r : Request}

/-! ## The winner among the requests -/

/-- **The winner is the request that all others come behind.** -/
theorem winner_eq_some_iff :
    t.winner threshold = some r ↔ t.request? threshold r.line = some r ∧
      ∀ id r', t.request? threshold id = some r' → r' = r ∨ r.precedes r' := by
  constructor
  · intro hwinner
    refine ⟨(winnerBelow_sound hwinner).2, fun id r' hr' => ?_⟩
    obtain ⟨w, hw, hle⟩ := winnerBelow_least (line_of_request? hr').2 hr'
    obtain rfl : w = r := Option.some.inj (hw.symm.trans hwinner)
    exact hle.imp_left Eq.symm
  · rintro ⟨hr, hleast⟩
    obtain ⟨w, hw, hle⟩ := winnerBelow_least (line_of_request? hr).2 hr
    rcases hle with rfl | hprecedes
    · exact hw
    · rcases hleast _ w (winnerBelow_sound hw).2 with rfl | hprecedes'
      · exact hw
      · exact absurd hprecedes' (asymm hprecedes)

theorem winner_eq_none_iff :
    t.winner threshold = none ↔ ∀ id, t.request? threshold id = none := by
  constructor
  · intro hnone id
    by_contra hsome
    obtain ⟨r, hr⟩ := Option.ne_none_iff_exists'.mp hsome
    obtain ⟨w, hw, -⟩ := winnerBelow_least (line_of_request? hr).2 hr
    exact Option.some_ne_none w (hw.symm.trans hnone)
  · intro hnone
    rw [Option.eq_none_iff_forall_ne_some]
    intro r hr
    exact Option.some_ne_none r ((winnerBelow_sound hr).2.symm.trans (hnone r.line))

/-- **A threshold lets the winner of threshold 0 pass, or nothing.** -/
theorem winner_eq_filter (t : LineTable) (threshold : UInt8) :
    t.winner threshold = (t.winner 0).filter (Request.passes threshold) := by
  rw [winner_threshold, winner_eq_head?]

/-! ## The winner among the lines -/

/-- A line that competes has a request. -/
theorem request?_eq_some_of_competes {line : Nat} {l : Line} (hl : t.lines[line]? = some l)
    (hcompetes : l.Competes threshold) : t.request? threshold line = some ⟨line, l.priority⟩ :=
  request?_eq_some_iff.mpr ⟨l, hl, Line.isEligible_iff.mpr hcompetes, rfl⟩

/-- **The winner is the most urgent line.** -/
theorem winner_line_eq_iff {line : Nat} :
    (t.winner threshold).map Request.line = some line ↔ t.MostUrgent threshold line := by
  rw [Option.map_eq_some_iff]
  constructor
  · rintro ⟨r, hwinner, rfl⟩
    obtain ⟨hr, hleast⟩ := winner_eq_some_iff.mp hwinner
    obtain ⟨l, hl, heligible, hrequest⟩ := request?_eq_some_iff.mp hr
    refine ⟨l, hl, Line.isEligible_iff.mp heligible, fun other l' hother hl' hcompetes => ?_⟩
    rcases hleast other _ (request?_eq_some_of_competes hl' hcompetes) with hsame | hprecedes
    · exact absurd (congrArg Request.line hsame) hother
    · rw [hrequest] at hprecedes
      exact hprecedes
  · rintro ⟨l, hl, hcompetes, hleast⟩
    refine ⟨⟨line, l.priority⟩, winner_eq_some_iff.mpr ⟨?_, fun id r' hr' => ?_⟩, rfl⟩
    · exact request?_eq_some_of_competes hl hcompetes
    · obtain ⟨l', hl', heligible, rfl⟩ := request?_eq_some_iff.mp hr'
      by_cases hid : id = line
      · subst hid
        rw [hl, Option.some.injEq] at hl'
        exact .inl (hl' ▸ rfl)
      · exact .inr (hleast id l' hid hl' (Line.isEligible_iff.mp heligible))

/-- The first of the enabled and pending lines of priority 0 is the most urgent line under every
threshold. -/
theorem mostUrgent_of_priority_eq_zero {line : Nat} {l : Line} (hl : t.lines[line]? = some l)
    (hactive : l.isActive = true) (hzero : l.priority = 0)
    (hfirst : ∀ (before : Nat) (l' : Line), before < line → t.lines[before]? = some l' →
      l'.isActive = true → l'.priority ≠ 0) (level : UInt8) : t.MostUrgent level line := by
  rw [Line.isActive, Bool.and_eq_true] at hactive
  have hpasses : level = 0 ∨ l.priority < level :=
    blocks_eq_false_iff.mp (hzero ▸ blocks_zero level)
  refine ⟨l, hl, ⟨hactive.1, hactive.2, hpasses⟩, fun other l' hother hl' hcompetes => ?_⟩
  rw [hzero]
  by_cases hpriority : l'.priority = 0
  · have hbehind : ¬ other < line := by
      intro hlt
      exact hfirst other l' hlt hl' (by simp [Line.isActive, hcompetes.1, hcompetes.2.1]) hpriority
    exact .inr ⟨hpriority.symm, by omega⟩
  · exact .inl (UInt8.pos_iff_ne_zero.mpr hpriority)

/-- There is no winner exactly if no line competes. -/
theorem winner_line_eq_none_iff :
    (t.winner threshold).map Request.line = none ↔
      ∀ (line : Nat) (l : Line), t.lines[line]? = some l → ¬ l.Competes threshold := by
  rw [Option.map_eq_none_iff, winner_eq_none_iff]
  constructor
  · intro hnone line l hl hcompetes
    exact Option.some_ne_none _
      ((request?_eq_some_of_competes hl hcompetes).symm.trans (hnone line))
  · intro hnone id
    rw [Option.eq_none_iff_forall_ne_some]
    intro r hr
    obtain ⟨l, hl, heligible, -⟩ := request?_eq_some_iff.mp hr
    exact hnone id l hl (Line.isEligible_iff.mp heligible)

end LineTable

namespace Controller

variable {σ : Type} {c : Controller σ} {context : Nat} {threshold : UInt8}

/-- A context that exists selects the winner under its threshold. -/
theorem selectNext_of_get (hg : c.thresholds.get context = .ok threshold) :
    c.selectNext context = .ok ((c.table.winner threshold).map Request.line) := by
  rw [selectNext, hg]
  rfl

/-- With another threshold a context chooses among the same lines. -/
theorem selectNext_setThreshold (hg : c.thresholds.get context = .ok threshold) (level : UInt8) :
    (c.setThreshold context level).2.selectNext context =
      .ok ((c.table.winner level).map Request.line) := by
  have hlevel : (c.setThreshold context level).2.thresholds.get context = .ok level := by
    rw [Thresholds.get_eq_ok_iff] at hg ⊢
    rw [getElem?_setThreshold, hg]
    simp
  rw [selectNext_of_get hlevel, table_setThreshold]

/-- **The most urgent line is chosen.** A choice fails exactly if the context does not exist.
Otherwise it falls on a line exactly if that line is enabled, pending and not blocked by the
threshold of the context and every other such line has a larger priority value, or the same one and
a larger number; and on none exactly if there is no such line. -/
theorem selectNext_eq_most_urgent (c : Controller σ) (context : Nat) :
    (∀ e, c.selectNext context = .error e ↔
      c.thresholds.size ≤ context ∧ e = .invalidContext context c.thresholds.size) ∧
    ∀ threshold, c.thresholds.get context = .ok threshold →
      (∀ line, c.selectNext context = .ok (some line) ↔ c.table.MostUrgent threshold line) ∧
      (c.selectNext context = .ok none ↔
        ∀ (line : Nat) (l : Line), c.table.lines[line]? = some l → ¬ l.Competes threshold) := by
  refine ⟨fun e => ?_, fun threshold hg => ⟨fun line => ?_, ?_⟩⟩
  · exact Error.map_eq_error_iff.trans Thresholds.get_eq_error_iff
  · rw [selectNext_of_get hg, Except.ok.injEq]
    exact LineTable.winner_line_eq_iff
  · rw [selectNext_of_get hg, Except.ok.injEq]
    exact LineTable.winner_line_eq_none_iff

/-! ## A threshold decides whether, never which -/

/-- A context chooses what is chosen under threshold 0, if it lets that pass. -/
theorem selectNext_eq_filter (hg : c.thresholds.get context = .ok threshold) :
    c.selectNext context =
      .ok (((c.table.winner 0).filter (Request.passes threshold)).map Request.line) := by
  rw [selectNext_of_get hg, LineTable.winner_eq_filter]

/-- A context that exists selects the first of all lines, or nothing if its threshold blocks it. -/
theorem selectNext_of_first {line : Nat} (hg : c.thresholds.get context = .ok threshold)
    (hfirst : (c.table.winner 0).map Request.line = some line) :
    ∃ l, c.table.lines[line]? = some l ∧ c.selectNext context =
      .ok (if threshold = 0 ∨ l.priority < threshold then some line else none) := by
  obtain ⟨r, hr, rfl⟩ := Option.map_eq_some_iff.mp hfirst
  obtain ⟨l, hl, -, hrequest⟩ :=
    LineTable.request?_eq_some_iff.mp (LineTable.winner_eq_some_iff.mp hr).1
  have hpriority : l.priority = r.priority := (congrArg Request.priority hrequest).symm
  refine ⟨l, hl, ?_⟩
  simp only [selectNext_eq_filter hg, hr, Option.filter_some, Request.passes_iff, hpriority]
  split <;> rfl

/-- A looser threshold leaves a chosen line chosen. -/
theorem selectNext_of_looser {level : UInt8} {line : Nat}
    (hg : c.thresholds.get context = .ok threshold)
    (hlooser : level = 0 ∨ threshold ≠ 0 ∧ threshold ≤ level)
    (hpresented : c.selectNext context = .ok (some line)) :
    (c.setThreshold context level).2.selectNext context = .ok (some line) := by
  rw [selectNext_eq_filter hg, Except.ok.injEq, Option.map_eq_some_iff] at hpresented
  obtain ⟨r, hr, rfl⟩ := hpresented
  obtain ⟨hwinner, hpasses⟩ := Option.filter_eq_some_iff.mp hr
  rw [selectNext_setThreshold hg, LineTable.winner_eq_filter, hwinner, Option.filter_some,
    if_pos (Request.passes_of_looser hlooser hpasses), Option.map_some]

/-- Contexts that are presented requests are presented the same one. -/
theorem pendingRequest_unique {other : Nat} {d e : Delivery}
    (hd : c.pendingRequest context = .ok (some d)) (he : c.pendingRequest other = .ok (some e)) :
    d.line = e.line ∧ d.priority = e.priority := by
  have hwinner {context : Nat} {d : Delivery} (hd : c.pendingRequest context = .ok (some d)) :
      c.table.winner 0 = some d.request := by
    obtain ⟨threshold, r, -, hr, rfl⟩ := pendingRequest_eq_some_iff.mp hd
    rw [LineTable.winner_eq_filter, Option.filter_eq_some_iff] at hr
    exact hr.1
  have hsame := Option.some.inj ((hwinner hd).symm.trans (hwinner he))
  exact ⟨congrArg Request.line hsame, congrArg Request.priority hsame⟩

/-- **A threshold decides whether a line is presented, never which.** Of a context with the given
threshold, let the line chosen under threshold 0 be known; there is none exactly if no line is
enabled and pending. This line is presented to the context if the threshold is 0 or lies above its
priority, and otherwise none is. So two contexts that are presented requests are presented the same
one; a looser threshold leaves a presented line presented; and of the enabled and pending lines of
priority 0 the first is presented under every threshold. -/
theorem threshold_decides_whether (hg : c.thresholds.get context = .ok threshold) :
    let under (level : UInt8) := (c.setThreshold context level).2.selectNext context
    ∃ first : Option Nat, under 0 = .ok first ∧
      (first = none ↔
        ∀ (line : Nat) (l : Line), c.table.lines[line]? = some l → l.isActive = false) ∧
      (first = none → c.selectNext context = .ok none) ∧
      (∀ line, first = some line → ∃ l, c.table.lines[line]? = some l ∧
        c.selectNext context =
          .ok (if threshold = 0 ∨ l.priority < threshold then some line else none)) ∧
      (∀ other d e, c.pendingRequest context = .ok (some d) →
        c.pendingRequest other = .ok (some e) → d.line = e.line ∧ d.priority = e.priority) ∧
      (∀ level line, (level = 0 ∨ threshold ≠ 0 ∧ threshold ≤ level) →
        c.selectNext context = .ok (some line) → under level = .ok (some line)) ∧
      ∀ (line : Nat) (l : Line), c.table.lines[line]? = some l → l.isActive = true →
        l.priority = 0 → (∀ (before : Nat) (l' : Line), before < line →
          c.table.lines[before]? = some l' → l'.isActive = true → l'.priority ≠ 0) →
        ∀ level, under level = .ok (some line) := by
  intro under
  refine ⟨(c.table.winner 0).map Request.line, selectNext_setThreshold hg 0, ?_, fun hnone => ?_,
    fun line hfirst => selectNext_of_first hg hfirst,
    fun other d e hd he => pendingRequest_unique hd he,
    fun level line hlooser hpresented => selectNext_of_looser hg hlooser hpresented, ?_⟩
  · rw [LineTable.winner_line_eq_none_iff]
    simp [Line.Competes, Line.isActive]
  · rw [selectNext_eq_filter hg, Option.map_eq_none_iff.mp hnone]
    rfl
  · intro line l hl hactive hzero hfirst level
    have hurgent := LineTable.mostUrgent_of_priority_eq_zero hl hactive hzero hfirst level
    exact (selectNext_setThreshold hg level).trans
      (congrArg Except.ok (LineTable.winner_line_eq_iff.mpr hurgent))

/-- Two lines ask for service at the same priority. One of three contexts blocks them; the two
others are presented the first line, and raising the threshold of one of these changes nothing. -/
theorem threshold_decides_whether_of_tied :
    let raised (line : Nat) : List Operation :=
      [.access (.command (.configure line 5 ⟨.edge, .positive⟩)),
        .access (.command (.enable line)), .access (.command (.setPending line))]
    let c := ((ofGeometry { lines := 3, contexts := 3 } ()).run .passive
      (raised 2 ++ raised 1 ++ [.setThreshold 0 5, .setThreshold 1 6])).2
    c.thresholds.get 1 = .ok 6 ∧ c.selectNext 0 = .ok none ∧
      c.pendingRequest 1 = .ok (some ⟨1, 5, 1⟩) ∧ c.pendingRequest 2 = .ok (some ⟨1, 5, 2⟩) ∧
      (c.setThreshold 1 200).2.selectNext 1 = .ok (some 1) := by
  intro raised c
  have hg : c.thresholds.get 1 = .ok 6 := by decide +kernel
  have hselect : c.selectNext 1 = .ok (some 1) := by decide +kernel
  obtain ⟨first, -, -, -, -, -, hlooser, -⟩ := threshold_decides_whether hg
  exact ⟨hg, by decide +kernel, by decide +kernel, by decide +kernel,
    hlooser 200 1 (.inr (by decide)) hselect⟩

end Controller

end Irq
