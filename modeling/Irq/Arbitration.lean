import Irq.LineTable
import Irq.Thresholds

/-!
# Irq.Arbitration

Which line is serviced next. The candidates are the lines that are enabled and pending and whose
priority the threshold lets pass; the one with the numerically smallest priority wins, and among
equals the one with the lowest number.
-/

namespace Irq

/-- The request of a line: its number, and the priority it has at this moment. -/
structure Request where
  line : Nat
  priority : UInt8
  deriving DecidableEq

/-- Whether one request comes before another: by priority first, then by line number. -/
def Request.precedes (a b : Request) : Prop :=
  a.priority < b.priority ∨ (a.priority = b.priority ∧ a.line < b.line)

instance (a b : Request) : Decidable (a.precedes b) :=
  inferInstanceAs (Decidable (_ ∨ _))

/-- Whether a threshold lets a line be serviced. -/
def Line.isEligible (threshold : UInt8) (l : Line) : Bool :=
  l.isActive && !blocks threshold l.priority

namespace LineTable

/-- The request of an eligible line. -/
def request? (t : LineTable) (threshold : UInt8) (id : Nat) : Option Request :=
  match t.lines[id]? with
  | some l => if l.isEligible threshold then some ⟨id, l.priority⟩ else none
  | none => none

/-- The request that leads when a later line challenges the leader: the later line takes the lead
only with a strictly smaller priority. -/
def lead (leader challenger : Option Request) : Option Request :=
  match leader, challenger with
  | none, challenger => challenger
  | some r, none => some r
  | some r, some r' => if r'.priority < r.priority then some r' else some r

/-- The winner among the lines numbered below `n`. -/
def winnerBelow (t : LineTable) (threshold : UInt8) : Nat → Option Request
  | 0 => none
  | n + 1 => lead (t.winnerBelow threshold n) (t.request? threshold n)

/-- The request a context with the given threshold services next. -/
def winner (t : LineTable) (threshold : UInt8) : Option Request := t.winnerBelow threshold t.size

/-- A line has a request exactly when it exists, is active and passes the threshold. -/
theorem request?_eq_some_iff {t : LineTable} {threshold : UInt8} {id : Nat} {r : Request} :
    t.request? threshold id = some r ↔
      ∃ l, t.lines[id]? = some l ∧ l.isEligible threshold = true ∧ r = ⟨id, l.priority⟩ := by
  unfold request?
  split
  · next l hl =>
    split
    · next he => simp only [hl, Option.some.injEq, exists_eq_left', he, true_and, eq_comm]
    · next he => simp [hl, he]
  · next hl => simp [hl]

/-- Arbitration looks at the lines alone: neither the clock nor the priority mask matters. -/
theorem winnerBelow_congr {t t' : LineTable} (h : t.lines = t'.lines) (threshold : UInt8)
    (n : Nat) : t.winnerBelow threshold n = t'.winnerBelow threshold n := by
  induction n with
  | zero => rfl
  | succ n ih => simp [winnerBelow, ih, request?, h]

/-- The winner depends on the lines alone. -/
theorem winner_congr {t t' : LineTable} (h : t.lines = t'.lines) (threshold : UInt8) :
    t.winner threshold = t'.winner threshold := by
  simp [winner, size, h, winnerBelow_congr h]

/-- The clock has no say in who wins. -/
@[simp] theorem winner_tick (t : LineTable) (threshold : UInt8) :
    t.tick.winner threshold = t.winner threshold :=
  @winner_congr t.tick t rfl threshold

/-- Of each line arbitration looks at its priority, and at whether it is active. -/
theorem winner_map {t t' : LineTable} {f : Line → Line} (hlines : t'.lines = t.lines.map f)
    (hactive : ∀ l, (f l).isActive = l.isActive) (hpriority : ∀ l, (f l).priority = l.priority)
    (threshold : UInt8) : t'.winner threshold = t.winner threshold := by
  have hrequest (i : Nat) : t'.request? threshold i = t.request? threshold i := by
    unfold request?
    rw [hlines, Array.getElem?_map]
    cases t.lines[i]? <;> simp [Line.isEligible, hactive, hpriority]
  have hbelow (n : Nat) : t'.winnerBelow threshold n = t.winnerBelow threshold n := by
    induction n with
    | zero => rfl
    | succ n ih => rw [winnerBelow, winnerBelow, ih, hrequest]
  rw [winner, winner, hbelow, size, hlines, Array.size_map, size]

/-- A winner below `n` is the request of a line below `n`. -/
theorem winnerBelow_sound {t : LineTable} {threshold : UInt8} {n : Nat} {r : Request}
    (h : t.winnerBelow threshold n = some r) :
    r.line < n ∧ t.request? threshold r.line = some r := by
  induction n with
  | zero => simp [winnerBelow] at h
  | succ n ih =>
    have challenger : ∀ {r}, t.request? threshold n = some r →
        r.line < n + 1 ∧ t.request? threshold r.line = some r := by
      intro r hr
      obtain ⟨l, -, -, rfl⟩ := request?_eq_some_iff.mp hr
      exact ⟨Nat.lt_succ_self n, hr⟩
    unfold winnerBelow lead at h
    split at h
    · exact challenger h
    · next hl _ =>
      obtain ⟨hlt, hr⟩ := ih (hl.trans h)
      exact ⟨Nat.lt_succ_of_lt hlt, hr⟩
    · next hl hc =>
      split at h
      · exact challenger (hc.trans h)
      · obtain ⟨hlt, hr⟩ := ih (hl.trans h)
        exact ⟨Nat.lt_succ_of_lt hlt, hr⟩

/-- No request below `n` comes before the winner below `n`. -/
theorem winnerBelow_least {t : LineTable} {threshold : UInt8} {n id : Nat} {r : Request}
    (hid : id < n) (hr : t.request? threshold id = some r) :
    ∃ w, t.winnerBelow threshold n = some w ∧ (w = r ∨ w.precedes r) := by
  induction n with
  | zero => omega
  | succ n ih =>
    rcases Nat.lt_succ_iff_lt_or_eq.mp hid with hlt | rfl
    · obtain ⟨w, hw, hwr⟩ := ih hlt
      unfold winnerBelow lead
      simp only [hw]
      split
      · simp_all
      · next heq _ => simp_all
      · next w' c heq hc =>
        cases heq
        split
        · next hpc =>
          refine ⟨c, rfl, .inr ?_⟩
          rcases hwr with rfl | hwr | ⟨hwr, -⟩
          · exact .inl hpc
          · exact .inl (UInt8.lt_trans hpc hwr)
          · exact .inl (hwr ▸ hpc)
        · exact ⟨w, rfl, hwr⟩
    · unfold winnerBelow lead
      simp only [hr]
      split
      · exact ⟨r, rfl, .inl rfl⟩
      · next hc => cases hc
      · next w c hw hc =>
        cases hc
        split
        · exact ⟨r, rfl, .inl rfl⟩
        · next hpc =>
          refine ⟨w, rfl, .inr ?_⟩
          have hline := (winnerBelow_sound hw).1
          obtain ⟨l, -, -, rfl⟩ := request?_eq_some_iff.mp hr
          rcases Nat.lt_or_eq_of_le (UInt8.le_iff_toNat_le.mp (UInt8.not_lt.mp hpc)) with h | h
          · exact .inl (UInt8.lt_iff_toNat_lt.mpr h)
          · exact .inr ⟨UInt8.toNat_inj.mp h, hline⟩

end LineTable

end Irq
