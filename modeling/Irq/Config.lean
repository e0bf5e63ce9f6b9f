import Irq.Registers.Layout

/-!
# Irq.Config

What a controller is built from: its geometry, and how latency is sampled on it. Any values can be
written down; `Config.validate` says which of them a controller should be built from, and
`validate_eq_ok_iff` says it again as ranges.
-/

namespace Irq

/-! ## Values of the reference build -/

namespace Defaults

/-- The number of lines. -/
def lines : Nat := 64

/-- The number of contexts. -/
def contexts : Nat := 1

/-- The implemented bits of a priority, all of the byte. -/
def priorityBits : Nat := 8

/-- Where the register window lies. -/
def baseAddress : Nat := 0x2800000

/-- The number of trials of a measurement. -/
def trials : Nat := 10

/-- The poll budget of a trial. -/
def maxPolls : Nat := 10000

end Defaults

/-! ## Configurations -/

/-- The shape of a controller. -/
structure Geometry where
  /-- The number of lines. -/
  lines : Nat := Defaults.lines
  /-- The number of contexts. -/
  contexts : Nat := Defaults.contexts
  /-- The implemented bits of a priority. -/
  priorityBits : Nat := Defaults.priorityBits
  /-- Where the register window lies. -/
  baseAddress : Nat := Defaults.baseAddress
  deriving DecidableEq

/-- How latency is sampled. -/
structure Sampling where
  /-- The number of trials. -/
  trials : Nat := Defaults.trials
  /-- The poll budget of a trial. -/
  maxPolls : Nat := Defaults.maxPolls
  deriving DecidableEq

/-- A whole configuration. -/
structure Config where
  controller : Geometry := {}
  latency : Sampling := {}
  deriving DecidableEq

/-- The geometry of the reference build. -/
def Geometry.default : Geometry where
  lines := Defaults.lines
  contexts := Defaults.contexts
  priorityBits := Defaults.priorityBits
  baseAddress := Defaults.baseAddress

/-- The sampling plan of the reference build. -/
def Sampling.default : Sampling where
  trials := Defaults.trials
  maxPolls := Defaults.maxPolls

/-- The configuration of the reference build, of the defaults of its sections. -/
def Config.default : Config where
  controller := Geometry.default
  latency := Sampling.default

/-- A configuration of which nothing is said is that of the reference build. -/
theorem Config.default_eq : Config.default = {} := rfl

/-- A field out of its range, with the value found there. -/
inductive Violation where
  | lines (found : Nat)
  | contexts (found : Nat)
  | priorityBits (found : Nat)
  | trials
  | maxPolls
  deriving DecidableEq

namespace Violation

/-- What is wrong with the field. -/
def detail : Violation → String
  | lines found =>
    let most := Registers.maxLines
    s!"num_interrupts must be in 1..={most}, got {found}"
  | contexts found =>
    let most := Registers.maxContexts
    s!"num_contexts must be in 1..={most}, got {found}"
  | priorityBits found =>
    let most := Registers.priorityRegisterBits
    s!"priority_bits must be in 1..={most}, got {found}"
  | trials => "latency.trials must be nonzero"
  | maxPolls => "latency.max_polls must be nonzero"

/-- The message shown for a field out of its range. -/
def message (v : Violation) : String := "invalid configuration: " ++ v.detail

end Violation

/-- The finding on one field: nothing if its value lies in the range. -/
def Violation.unless (inRange : Prop) [Decidable inRange] (v : Violation) : List Violation :=
  if inRange then [] else [v]

namespace Config

/-- The fields that are out of their ranges, in the order of the configuration. -/
def violations (c : Config) : List Violation :=
  Violation.unless (1 ≤ c.controller.lines ∧ c.controller.lines ≤ Registers.maxLines)
      (.lines c.controller.lines) ++
    Violation.unless (1 ≤ c.controller.contexts ∧ c.controller.contexts ≤ Registers.maxContexts)
      (.contexts c.controller.contexts) ++
    Violation.unless
      (1 ≤ c.controller.priorityBits ∧ c.controller.priorityBits ≤ Registers.priorityRegisterBits)
      (.priorityBits c.controller.priorityBits) ++
    Violation.unless (1 ≤ c.latency.trials) .trials ++
    Violation.unless (1 ≤ c.latency.maxPolls) .maxPolls

/-- Accepts a configuration, or names the first field that is out of its range. -/
def validate (c : Config) : Except Violation Unit :=
  match c.violations with
  | [] => .ok ()
  | v :: _ => .error v

/-- The ranges of a configuration. -/
def InRange (c : Config) : Prop :=
  (1 ≤ c.controller.lines ∧ c.controller.lines ≤ Registers.maxLines) ∧
    (1 ≤ c.controller.contexts ∧ c.controller.contexts ≤ Registers.maxContexts) ∧
    (1 ≤ c.controller.priorityBits ∧ c.controller.priorityBits ≤ Registers.priorityRegisterBits) ∧
    1 ≤ c.latency.trials ∧ 1 ≤ c.latency.maxPolls

theorem violations_eq_nil_iff {c : Config} : c.violations = [] ↔ c.InRange := by
  simp [violations, Violation.unless, InRange, and_assoc, Nat.one_le_iff_ne_zero]

/-- Accepted is what is in range. -/
theorem validate_eq_ok_iff {c : Config} : c.validate = .ok () ↔ c.InRange := by
  rw [← violations_eq_nil_iff]
  unfold validate
  split <;> simp_all

/-- The configuration of the reference build is in range. -/
theorem validate_default : validate default = .ok () := rfl

end Config

end Irq
