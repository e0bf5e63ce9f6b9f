import Irq.Handler

/-!
# Irq.Handler.Script

A handler written down as rules. Each rule names the line it is for, how often it may apply, and the
accesses to the line table it then makes. The handler keeps count of its rules and a log of what it
saw and was answered.
-/

namespace Irq.Script

/-- One rule of a script. -/
structure Rule where
  /-- The line the rule is for; none means every line. -/
  line : Option Nat := none
  /-- How many times the rule may apply; none means no limit. -/
  limit : Option Nat := none
  /-- What the rule does. -/
  actions : List Access := []
  deriving DecidableEq

/-- What the script saw at one delivery. -/
structure Entry where
  delivery : Delivery
  /-- The poll clock at the delivery. -/
  now : Nat
  /-- The answers to all accesses made, in order. -/
  answers : List (Except Error Answer)

/-- What the script remembers. -/
structure Memory where
  /-- How often each rule has applied. -/
  applied : List Nat
  /-- The entries since the log was last taken, newest last. -/
  log : Array Entry

/-- Whether a rule that has applied `count` times applies to a delivery. -/
def Rule.applies (r : Rule) (count : Nat) (d : Delivery) : Bool :=
  r.line.all (· == d.line) && r.limit.all (count < ·)

/-- The memory of a script that has not run. -/
def Memory.fresh (rules : List Rule) : Memory := ⟨rules.map fun _ => 0, #[]⟩

/-- The log, and the memory with an empty one. -/
def Memory.takeLog (m : Memory) : List Entry × Memory := (m.log.toList, { m with log := #[] })

/-- The accesses that the rules make at a delivery, and the counts after it. -/
def actions (d : Delivery) : List Rule → List Nat → List Access × List Nat
  | r :: rules, count :: counts =>
    let (later, counts) := actions d rules counts
    if r.applies count d then (r.actions ++ later, (count + 1) :: counts)
    else (later, count :: counts)
  | _, counts => ([], counts)

/-- The handler that follows a script. -/
def handler (rules : List Rule) : Handler Memory where
  deliver memory d t :=
    let (accesses, applied) := actions d rules memory.applied
    let entry : Entry := ⟨d, t.now, (t.accessAll accesses).1⟩
    (⟨applied, memory.log.push entry⟩, accesses.filterMap Access.command?)

end Irq.Script
