import Irq.Attributes
import Irq.Text.Record
import Irq.Text.Object

/-!
# Irq.Line

The state of one interrupt line. A line asks for service while it is pending, and is a candidate for
service while it is enabled as well. Beside the pending bit stands a stamp: the reading of the poll
clock from which the wait of the present request is measured.
-/

namespace Irq

/-- The state of one interrupt line. -/
structure Line where
  /-- Urgency: lower values are serviced first, 0 is the most urgent. -/
  priority : UInt8 := 0
  /-- How the input is read. -/
  attributes : Attributes := {}
  /-- Whether the line may be serviced. -/
  enabled : Bool := false
  /-- Whether the line asks for service. -/
  pending : Bool := false
  /-- The signal last sampled on the input. -/
  input : Bool := false
  /-- The poll clock when the request was raised, or when a level line was last serviced. -/
  since : Option Nat := none
  deriving DecidableEq, Inhabited

namespace Line

/-- Whether the line is a candidate for service. -/
def isActive (l : Line) : Bool := l.enabled && l.pending

/-- Raises a request at clock `now`. A request that is already pending keeps its stamp. -/
def raise (now : Nat) (l : Line) : Line :=
  if l.pending then l else { l with pending := true, since := some now }

/-- Withdraws the request, if there is one. -/
def lower (l : Line) : Line := { l with pending := false, since := none }

/-- Samples the input at clock `now`. An edge line latches a request on a transition to the asserted
signal and ignores the signal otherwise; on a level line the request follows the asserted signal. -/
def sample (now : Nat) (signal : Bool) (l : Line) : Line :=
  let sampled := { l with input := signal }
  match l.attributes.trigger with
  | .edge =>
    if l.input != signal && l.attributes.polarity.asserts signal then sampled.raise now else sampled
  | .level =>
    if l.attributes.polarity.asserts signal then sampled.raise now else sampled.lower

/-- What its service at clock `now` makes of the line: an edge line's request is used up, a level
line's request stays and is measured anew from here. -/
def serve (now : Nat) (l : Line) : Line :=
  match l.attributes.trigger with
  | .edge => l.lower
  | .level => { l with since := some now }

/-- How long the present request has waited at clock `now`. -/
def waited (now : Nat) (l : Line) : Option Nat := l.since.map (now - ·)

/-- Disables the line and forgets request, input and stamp. Priority and attributes survive. -/
def clear (l : Line) : Line := { l with enabled := false, input := false }.lower

/-! ## The pending bit -/

/-- A line that was triggered is pending. -/
@[simp] theorem pending_raise (now : Nat) (l : Line) : (l.raise now).pending = true := by
  unfold raise
  split <;> simp_all

@[simp] theorem pending_lower (l : Line) : l.lower.pending = false := rfl

@[simp] theorem since_lower (l : Line) : l.lower.since = none := rfl

/-- A request that is there already keeps its stamp. -/
theorem raise_of_pending {now : Nat} {l : Line} (h : l.pending = true) : l.raise now = l := by
  simp [raise, h]

/-- A new request is stamped with the clock. -/
theorem raise_of_not_pending {now : Nat} {l : Line} (h : l.pending = false) :
    l.raise now = { l with pending := true, since := some now } := by
  simp [raise, h]

/-- A second raise at any clock changes nothing. -/
@[simp] theorem raise_raise (now later : Nat) (l : Line) :
    (l.raise now).raise later = l.raise now :=
  raise_of_pending (pending_raise now l)

/-- Where there is no request there is none to withdraw. -/
theorem lower_of_not_pending {l : Line} (h : l.pending = false) (hsince : l.since = none) :
    l.lower = l := by
  rw [lower, ← h, ← hsince]

/-- Whether a line is serviced before its request is withdrawn makes no difference. -/
theorem lower_serve (now : Nat) (l : Line) : (l.serve now).lower = l.lower := by
  unfold serve
  split <;> rfl

/-- Of two services the second alone counts. -/
theorem serve_serve (now later : Nat) (l : Line) : (l.serve now).serve later = l.serve later := by
  unfold serve
  cases h : l.attributes.trigger <;> simp [lower, h]

/-- After a sample a level line is pending as the signal has it; on an edge line a request is
latched by a transition. -/
theorem pending_sample (now : Nat) (signal : Bool) (l : Line) :
    (l.sample now signal).pending =
      match l.attributes.trigger with
      | .edge => l.pending || (signal != l.input && l.attributes.polarity.asserts signal)
      | .level => l.attributes.polarity.asserts signal := by
  unfold sample
  cases l.attributes.trigger <;> dsimp only <;> split <;> simp_all [bne_comm]

/-- A service takes the request of an edge line and leaves that of a level line. -/
theorem pending_serve (now : Nat) (l : Line) :
    (l.serve now).pending = (l.pending && l.attributes.trigger == .level) := by
  unfold serve
  cases l.attributes.trigger <;> simp

/-! ## What an operation leaves alone -/

@[simp] theorem priority_raise (now : Nat) (l : Line) : (l.raise now).priority = l.priority := by
  unfold raise; split <;> rfl

@[simp] theorem attributes_raise (now : Nat) (l : Line) :
    (l.raise now).attributes = l.attributes := by
  unfold raise; split <;> rfl

@[simp] theorem enabled_raise (now : Nat) (l : Line) : (l.raise now).enabled = l.enabled := by
  unfold raise; split <;> rfl

@[simp] theorem input_raise (now : Nat) (l : Line) : (l.raise now).input = l.input := by
  unfold raise; split <;> rfl

@[simp] theorem priority_serve (now : Nat) (l : Line) : (l.serve now).priority = l.priority := by
  unfold serve; split <;> rfl

@[simp] theorem attributes_serve (now : Nat) (l : Line) :
    (l.serve now).attributes = l.attributes := by
  unfold serve; split <;> rfl

@[simp] theorem enabled_serve (now : Nat) (l : Line) : (l.serve now).enabled = l.enabled := by
  unfold serve; split <;> rfl

@[simp] theorem input_serve (now : Nat) (l : Line) : (l.serve now).input = l.input := by
  unfold serve; split <;> rfl

/-- A sample of the input changes no attribute. -/
@[simp] theorem attributes_sample (now : Nat) (signal : Bool) (l : Line) :
    (l.sample now signal).attributes = l.attributes := by
  simp only [sample]; repeat' split
  all_goals simp [lower]

/-- The sampled level is kept. -/
@[simp] theorem input_sample (now : Nat) (signal : Bool) (l : Line) :
    (l.sample now signal).input = signal := by
  simp only [sample]; repeat' split
  all_goals simp [lower]

/-! ## Texts -/

/-- The compact object text of a line, which leaves out the sampled input and the stamp. -/
def object (l : Line) : String :=
  Text.object
    [("priority", toString l.priority.toNat), ("trigger", Text.quoted l.attributes.trigger.name),
      ("polarity", Text.quoted l.attributes.polarity.name), ("enabled", toString l.enabled),
      ("pending", toString l.pending)]

/-- The record text of a line. -/
def describe (l : Line) : String :=
  Text.record "InterruptLine"
    [("priority", toString l.priority.toNat), ("trigger", l.attributes.trigger.name),
      ("polarity", l.attributes.polarity.name), ("enabled", toString l.enabled),
      ("pending", toString l.pending), ("input", toString l.input),
      ("pending_since", Text.optional (l.since.map toString))]

end Line

end Irq
