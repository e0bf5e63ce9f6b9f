import Irq.Error

/-!
# Irq.Thresholds

One priority threshold per execution context. A threshold of 0 blocks nothing; any other blocks the
priorities from itself upwards. Priority 0 therefore passes every threshold (`blocks_zero`), and a
blocked priority stays blocked when it grows (`blocks_mono`).
-/

namespace Irq

/-- Whether a threshold blocks a priority. -/
def blocks (threshold priority : UInt8) : Bool := threshold != 0 && threshold ≤ priority

/-- A threshold of 0 blocks nothing. -/
@[simp] theorem zero_blocks (priority : UInt8) : blocks 0 priority = false := by
  simp [blocks]

/-- No threshold blocks the most urgent priority. -/
@[simp] theorem blocks_zero (threshold : UInt8) : blocks threshold 0 = false := by
  simp only [blocks, Bool.and_eq_false_iff, bne_eq_false_iff_eq, decide_eq_false_iff_not,
    UInt8.le_iff_toNat_le, UInt8.toNat_zero]
  by_cases h : threshold.toNat = 0
  · exact .inl (UInt8.toNat_inj.mp h)
  · exact .inr (by omega)

/-- What is blocked stays blocked when it becomes less urgent. -/
theorem blocks_mono {threshold p q : UInt8} (hpq : p ≤ q) (h : blocks threshold p = true) :
    blocks threshold q = true := by
  simp only [blocks, Bool.and_eq_true, decide_eq_true_eq] at h ⊢
  exact ⟨h.1, UInt8.le_trans h.2 hpq⟩

/-- The thresholds of the contexts of a controller. -/
structure Thresholds where
  levels : Array UInt8
  deriving DecidableEq

namespace Thresholds

/-- The thresholds of `count` contexts, all 0. -/
def ofSize (count : Nat) : Thresholds := ⟨Array.replicate count 0⟩

/-- The number of contexts. -/
def size (g : Thresholds) : Nat := g.levels.size

/-- The failure of naming a context that does not exist. -/
def noContext (g : Thresholds) (context : Nat) : Error := .invalidContext context g.size

/-- The threshold of a context. -/
def get (g : Thresholds) (context : Nat) : Except Error UInt8 :=
  match g.levels[context]? with
  | some level => .ok level
  | none => .error (g.noContext context)

/-- Whether a context exists. -/
def check (g : Thresholds) (context : Nat) : Except Error Unit :=
  if context < g.size then .ok () else .error (g.noContext context)

/-- Sets the threshold of a context. -/
def set (g : Thresholds) (context : Nat) (level : UInt8) : Except Error Thresholds :=
  (g.check context).map fun _ => ⟨g.levels.setIfInBounds context level⟩

/-- Whether a context blocks a priority. -/
def blocked (g : Thresholds) (priority : UInt8) (context : Nat) : Except Error Bool :=
  (g.get context).map fun level => blocks level priority

/-- All thresholds back at 0. -/
def reset (g : Thresholds) : Thresholds := ofSize g.size

@[simp] theorem size_ofSize (count : Nat) : (ofSize count).size = count := by
  simp [ofSize, size]

@[simp] theorem size_reset (g : Thresholds) : g.reset.size = g.size := by simp [reset]

/-- The threshold of a context is found under its number. -/
theorem get_eq_ok_iff {g : Thresholds} {context : Nat} {level : UInt8} :
    g.get context = .ok level ↔ g.levels[context]? = some level := by
  unfold get
  split <;> simp_all

/-- A context has a threshold exactly when its number is below the number of contexts. -/
theorem get_eq_error_iff {g : Thresholds} {context : Nat} {e : Error} :
    g.get context = .error e ↔ g.size ≤ context ∧ e = .invalidContext context g.size := by
  unfold get noContext size
  split <;> rename_i h
  · obtain ⟨hlt, -⟩ := Array.getElem?_eq_some_iff.mp h
    simp only [reduceCtorEq, false_iff, not_and]
    omega
  · rw [Array.getElem?_eq_none_iff] at h
    simp [h, eq_comm]

theorem check_eq_ok_iff {g : Thresholds} {context : Nat} :
    g.check context = .ok () ↔ context < g.size := by
  simp [check]

/-- A threshold cannot be set exactly where there is no such context. -/
theorem set_eq_error_iff {g : Thresholds} {context : Nat} {level : UInt8} {e : Error} :
    g.set context level = .error e ↔ g.size ≤ context ∧ e = .invalidContext context g.size := by
  unfold set check noContext
  split
  · simp only [Except.map, reduceCtorEq, false_iff, not_and]
    omega
  · simp_all [Except.map, eq_comm]

/-- Setting a threshold makes no context and takes none away. -/
theorem size_set {g g' : Thresholds} {context : Nat} {level : UInt8}
    (h : g.set context level = .ok g') : g'.size = g.size := by
  unfold set check at h
  split at h
  · cases h
    simp [size]
  · simp [Except.map] at h

/-- The record text of the thresholds. -/
def describe (g : Thresholds) : String :=
  Text.record "ThresholdGate"
    [("thresholds", Text.list (g.levels.toList.map fun level => toString level.toNat))]

end Thresholds

end Irq
