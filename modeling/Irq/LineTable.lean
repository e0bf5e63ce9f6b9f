import Irq.Error
import Irq.Line

/-!
# Irq.LineTable

The lines of a controller, numbered from zero, with the poll clock that stamps their requests and
the mask that says how many bits of a priority exist. The table never changes its size, and what is
done to one line leaves every other line alone (`getElem?_modify`).
-/

namespace Irq

/-- The lines of a controller. -/
structure LineTable where
  /-- The state of each line. -/
  lines : Array Line
  /-- The bits of a written priority that are kept. -/
  priorityMask : UInt8
  /-- The poll clock: how many dispatch cycles have begun. -/
  now : Nat
  deriving DecidableEq

namespace LineTable

/-- The mask of `bits` implemented priority bits; eight or more keep the whole byte. -/
def maskOfBits (bits : Nat) : UInt8 :=
  if 8 ≤ bits then 255 else UInt8.ofNat ((1 <<< bits) - 1)

/-- A table of `count` disabled, idle lines at priority 0, with its clock at zero. -/
def ofSize (count priorityBits : Nat) : LineTable where
  lines := Array.replicate count {}
  priorityMask := maskOfBits priorityBits
  now := 0

/-- The number of lines. -/
def size (t : LineTable) : Nat := t.lines.size

/-- The failure of naming a line that does not exist. -/
def noLine (t : LineTable) (id : Nat) : Error := .invalidLine id t.size

/-- The state of a line. -/
def line (t : LineTable) (id : Nat) : Except Error Line :=
  match t.lines[id]? with
  | some l => .ok l
  | none => .error (t.noLine id)

/-- Changes the state of one line. -/
def modify (t : LineTable) (id : Nat) (f : Line → Line) : Except Error LineTable :=
  if id < t.size then .ok { t with lines := t.lines.modify id f } else .error (t.noLine id)

/-- Keeps the implemented bits of a priority. -/
def maskPriority (t : LineTable) (priority : UInt8) : UInt8 := priority &&& t.priorityMask

/-- Starts a new dispatch cycle. -/
def tick (t : LineTable) : LineTable := { t with now := t.now + 1 }

/-- What the service of a line, at the present clock, makes of the table. -/
def serve (t : LineTable) (id : Nat) : LineTable :=
  { t with lines := t.lines.modify id (Line.serve t.now) }

/-- How long the request of a line has waited at the present clock. -/
def waited (t : LineTable) (id : Nat) : Option Nat :=
  t.lines[id]?.bind (Line.waited t.now)

/-! ## Lines by number -/

@[simp] theorem size_ofSize (count bits : Nat) : (ofSize count bits).size = count := by
  simp [size, ofSize]

/-- The lines of a new table have nothing set. -/
theorem eq_default_of_ofSize {count bits i : Nat} {l : Line}
    (hl : (ofSize count bits).lines[i]? = some l) : l = {} := by
  obtain ⟨hi, hl⟩ := Array.getElem?_eq_some_iff.mp hl
  rw [← hl]
  exact Array.getElem_replicate hi

/-- A line is found under its number. -/
theorem line_eq_ok_iff {t : LineTable} {id : Nat} {l : Line} :
    t.line id = .ok l ↔ t.lines[id]? = some l := by
  unfold line
  split <;> simp_all

/-- A line is found exactly when its number is below the size of the table. -/
theorem line_eq_error_iff {t : LineTable} {id : Nat} {e : Error} :
    t.line id = .error e ↔ t.size ≤ id ∧ e = .invalidLine id t.size := by
  unfold line noLine size
  split <;> rename_i h
  · obtain ⟨hlt, -⟩ := Array.getElem?_eq_some_iff.mp h
    simp only [reduceCtorEq, false_iff, not_and]
    omega
  · rw [Array.getElem?_eq_none_iff] at h
    simp [h, eq_comm]

/-- Where every line is an image, so is the line that is found. -/
theorem line_map {t t' : LineTable} {f : Line → Line} (hlines : t'.lines = t.lines.map f)
    (id : Nat) : t'.line id = (t.line id).map f := by
  unfold line noLine size
  rw [hlines, Array.getElem?_map, Array.size_map]
  cases t.lines[id]? <;> rfl

/-- A line that exists is changed in its place. -/
theorem modify_of_lt {t : LineTable} {id : Nat} (f : Line → Line) (h : id < t.size) :
    t.modify id f = .ok { t with lines := t.lines.modify id f } := by
  simp [modify, h]

theorem modify_of_le {t : LineTable} {id : Nat} (f : Line → Line) (h : t.size ≤ id) :
    t.modify id f = .error (.invalidLine id t.size) := by
  simp [modify, noLine, Nat.not_lt.mpr h]

/-- A change fails exactly when the line does not exist. -/
theorem modify_eq_error_iff {t : LineTable} {id : Nat} {f : Line → Line} {e : Error} :
    t.modify id f = .error e ↔ t.size ≤ id ∧ e = .invalidLine id t.size := by
  unfold modify noLine
  split
  · simp only [reduceCtorEq, false_iff, not_and]
    omega
  · simp_all [eq_comm]

/-- **What `modify` does**: it applies `f` to the line it names and leaves all others alone. -/
theorem getElem?_modify {t t' : LineTable} {id : Nat} {f : Line → Line}
    (h : t.modify id f = .ok t') (i : Nat) :
    t'.lines[i]? = if id = i then t.lines[i]?.map f else t.lines[i]? := by
  unfold modify at h
  split at h
  · cases h
    simp [Array.getElem?_modify]
  · simp at h

/-- A change of one line leaves the number of lines. -/
theorem size_modify {t t' : LineTable} {id : Nat} {f : Line → Line}
    (h : t.modify id f = .ok t') : t'.size = t.size := by
  unfold modify at h
  split at h
  · cases h
    simp [size]
  · simp at h

theorem now_modify {t t' : LineTable} {id : Nat} {f : Line → Line}
    (h : t.modify id f = .ok t') : t'.now = t.now := by
  unfold modify at h
  split at h
  · cases h
    rfl
  · simp at h

theorem priorityMask_modify {t t' : LineTable} {id : Nat} {f : Line → Line}
    (h : t.modify id f = .ok t') : t'.priorityMask = t.priorityMask := by
  unfold modify at h
  split at h
  · cases h
    rfl
  · simp at h

@[simp] theorem size_tick (t : LineTable) : t.tick.size = t.size := rfl

@[simp] theorem size_serve (t : LineTable) (id : Nat) : (t.serve id).size = t.size := by
  simp [serve, size]

/-! ## Texts -/

/-- The record text of a table. -/
def describe (t : LineTable) : String :=
  Text.record "LineRegistry"
    [("lines", Text.list (t.lines.toList.map Line.describe)),
      ("priority_mask", toString t.priorityMask.toNat), ("now", toString t.now)]

end LineTable

end Irq
