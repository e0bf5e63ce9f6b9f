import Irq.Text.Record

/-!
# Irq.Error

What can go wrong in an operation of the controller. Only two things are checked, the line and the
context that an operation names; and a bounded wait can run out.
-/

namespace Irq

/-- Why an operation failed. -/
inductive Error where
  /-- The line does not exist in a controller of `count` lines. -/
  | invalidLine (id count : Nat)
  /-- The context does not exist in a controller of `count` contexts. -/
  | invalidContext (context count : Nat)
  /-- The line was not serviced within the poll budget. -/
  | timeout (line polls : Nat)
  deriving DecidableEq

namespace Error

/-- What is done with a result keeps the failures. -/
theorem map_eq_error_iff {α β : Type} {f : α → β} {x : Except Error α} {e : Error} :
    x.map f = .error e ↔ x = .error e := by
  cases x <;> simp [Except.map]

/-- The message shown for an error. -/
def message : Error → String
  | invalidLine id count =>
    s!"interrupt line {id} out of range (controller has {count} lines)"
  | invalidContext context count =>
    s!"context {context} out of range (controller has {count} contexts)"
  | timeout line polls => s!"interrupt line {line} not serviced within {polls} polls"

/-- The record text of an error. -/
def describe : Error → String
  | invalidLine id count =>
    Text.record "InvalidLine" [("id", toString id), ("count", toString count)]
  | invalidContext context count =>
    Text.record "InvalidContext" [("context", toString context), ("count", toString count)]
  | timeout line polls =>
    Text.record "Timeout" [("line", toString line), ("polls", toString polls)]

end Error

end Irq
