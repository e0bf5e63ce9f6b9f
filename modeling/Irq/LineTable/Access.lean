import Irq.LineTable

/-!
# Irq.LineTable.Access

Everything a client of the line table may do: the commands that change a line, and the questions
that do not. A command that fails changes nothing. Commands are data, so that a delivery handler can
hand back the commands it gives, and so that a run of any client is a list of them.
-/

namespace Irq

/-- A command to the line table. -/
inductive Command where
  /-- Sets priority and attributes of a line. -/
  | configure (id : Nat) (priority : UInt8) (attributes : Attributes)
  /-- Sets the priority of a line. -/
  | setPriority (id : Nat) (priority : UInt8)
  /-- Sets the attributes of a line from an attribute byte. -/
  | setAttributes (id : Nat) (byte : UInt8)
  /-- Lets a line be serviced. -/
  | enable (id : Nat)
  /-- Keeps a line from being serviced; its request stays pending. -/
  | disable (id : Nat)
  /-- Raises a request on a line. -/
  | setPending (id : Nat)
  /-- Withdraws the request of a line. -/
  | clearPending (id : Nat)
  /-- Samples the raw input of a line. -/
  | sample (id : Nat) (signal : Bool)
  /-- Clears every line. -/
  | reset
  deriving DecidableEq

/-- What the table answers to an access. -/
inductive Answer where
  /-- The command was carried out. -/
  | done
  /-- A yes or no. -/
  | flag (value : Bool)
  /-- The state of a line. -/
  | line (state : Line)
  /-- The state of a line, asked for as text. -/
  | lineText (state : Line)
  /-- The size of the table, its priority mask and its clock. -/
  | summary (size : Nat) (priorityMask : UInt8) (now : Nat)
  deriving DecidableEq

/-- One access to the line table. -/
inductive Access where
  /-- A command. -/
  | command (c : Command)
  /-- Asks whether a line is pending. -/
  | isPending (id : Nat)
  /-- Asks whether a line is enabled. -/
  | isEnabled (id : Nat)
  /-- Asks for the state of a line. -/
  | line (id : Nat)
  /-- Asks for the texts of a line. -/
  | lineText (id : Nat)
  /-- Asks for the size of the table, its priority mask and its clock. -/
  | summary
  deriving DecidableEq

/-- The line a command names; a reset names none and concerns them all. -/
def Command.line? : Command → Option Nat
  | configure id _ _ | setPriority id _ | setAttributes id _ | enable id | disable id
  | setPending id | clearPending id | sample id _ => some id
  | reset => none

/-- The line an access names; a reset and a summary name none. -/
def Access.line? : Access → Option Nat
  | command c => c.line?
  | isPending id | isEnabled id | line id | lineText id => some id
  | summary => none

/-- The command among the accesses, if it is one. -/
def Access.command? : Access → Option Command
  | command c => some c
  | isPending _ | isEnabled _ | line _ | lineText _ | summary => none

namespace LineTable

/-- What a command makes of a line it is carried out on. -/
def effect (t : LineTable) : Command → Line → Line
  | .configure _ priority attributes, l =>
    { l with priority := t.maskPriority priority, attributes }
  | .setPriority _ priority, l => { l with priority := t.maskPriority priority }
  | .setAttributes _ byte, l => { l with attributes := .ofByte byte }
  | .enable _, l => { l with enabled := true }
  | .disable _, l => { l with enabled := false }
  | .setPending _, l => l.raise t.now
  | .clearPending _, l => l.lower
  | .sample _ signal, l => l.sample t.now signal
  | .reset, l => l.clear

/-- Carries out a command: on the line it names, or on every line if it names none. -/
def run (t : LineTable) (c : Command) : Except Error LineTable :=
  match c.line? with
  | some id => t.modify id (t.effect c)
  | none => .ok { t with lines := t.lines.map (t.effect c) }

/-- The table after a command; a command that fails changes nothing. -/
def apply (t : LineTable) (c : Command) : LineTable :=
  match t.run c with
  | .ok t' => t'
  | .error _ => t

/-- The table after a list of commands. -/
def applyAll (t : LineTable) (cs : List Command) : LineTable := cs.foldl apply t

/-- Answers an access and gives the table it leaves behind. -/
def access (t : LineTable) : Access → Except Error Answer × LineTable
  | .command c => ((t.run c).map fun _ => .done, t.apply c)
  | .isPending id => ((t.line id).map fun l => .flag l.pending, t)
  | .isEnabled id => ((t.line id).map fun l => .flag l.enabled, t)
  | .line id => ((t.line id).map .line, t)
  | .lineText id => ((t.line id).map .lineText, t)
  | .summary => (.ok (.summary t.size t.priorityMask t.now), t)

/-- Answers a list of accesses in order. -/
def accessAll (t : LineTable) : List Access → List (Except Error Answer) × LineTable
  | [] => ([], t)
  | a :: as =>
    let (answer, t) := t.access a
    let (answers, t) := t.accessAll as
    (answer :: answers, t)

/-- Samples the raw inputs: the first signal drives line 0, the next one line 1 and so on. Signals
beyond the last line have no effect. -/
def sampleAll (t : LineTable) (signals : List Bool) : LineTable :=
  t.applyAll (signals.zipIdx.map fun (signal, id) => .sample id signal)

/-! ## One command after another -/

@[simp] theorem applyAll_nil (t : LineTable) : t.applyAll [] = t := rfl

@[simp] theorem applyAll_cons (t : LineTable) (c : Command) (cs : List Command) :
    t.applyAll (c :: cs) = (t.apply c).applyAll cs := rfl

/-- A command that succeeds leaves its result. -/
theorem apply_of_ok {t t' : LineTable} {c : Command} (h : t.run c = .ok t') : t.apply c = t' := by
  simp [apply, h]

/-- A command that fails leaves the table as it was. -/
theorem apply_of_error {t : LineTable} {c : Command} {e : Error} (h : t.run c = .error e) :
    t.apply c = t := by
  simp [apply, h]

/-! ## Which commands and accesses fail -/

/-- A command fails exactly when it names a line beyond the table. -/
theorem run_eq_error_iff {t : LineTable} {c : Command} {e : Error} :
    t.run c = .error e ↔ ∃ id, c.line? = some id ∧ t.size ≤ id ∧ e = .invalidLine id t.size := by
  unfold run
  split
  · next h => simp [h, modify_eq_error_iff]
  · next h => simp [h]

/-- An access fails exactly when it names a line beyond the table. -/
theorem fst_access_eq_error_iff {t : LineTable} {a : Access} {e : Error} :
    (t.access a).1 = .error e ↔
      ∃ id, a.line? = some id ∧ t.size ≤ id ∧ e = .invalidLine id t.size := by
  cases a with
  | command c => simp [access, Access.line?, Error.map_eq_error_iff, run_eq_error_iff]
  | isPending _ | isEnabled _ | line _ | lineText _ =>
    simp [access, Access.line?, Error.map_eq_error_iff, line_eq_error_iff]
  | summary => simp [access, Access.line?]

/-- An access that fails changes nothing. -/
theorem snd_access_of_error {t : LineTable} {a : Access} {e : Error}
    (h : (t.access a).1 = .error e) : (t.access a).2 = t := by
  cases a with
  | command c => exact apply_of_error (Error.map_eq_error_iff.mp h)
  | isPending _ | isEnabled _ | line _ | lineText _ | summary => rfl

/-! ## What no command changes -/

/-- No command makes a line or takes one away. -/
theorem size_run {t t' : LineTable} {c : Command} (h : t.run c = .ok t') : t'.size = t.size := by
  unfold run at h
  split at h
  · exact size_modify h
  · cases h
    simp [size]

theorem now_run {t t' : LineTable} {c : Command} (h : t.run c = .ok t') : t'.now = t.now := by
  unfold run at h
  split at h
  · exact now_modify h
  · cases h
    rfl

theorem priorityMask_run {t t' : LineTable} {c : Command} (h : t.run c = .ok t') :
    t'.priorityMask = t.priorityMask := by
  unfold run at h
  split at h
  · exact priorityMask_modify h
  · cases h
    rfl

/-- Carried out or not, no command makes a line or takes one away. -/
@[simp] theorem size_apply (t : LineTable) (c : Command) : (t.apply c).size = t.size := by
  unfold apply
  split
  · next h => exact size_run h
  · rfl

@[simp] theorem now_apply (t : LineTable) (c : Command) : (t.apply c).now = t.now := by
  unfold apply
  split
  · next h => exact now_run h
  · rfl

@[simp] theorem priorityMask_apply (t : LineTable) (c : Command) :
    (t.apply c).priorityMask = t.priorityMask := by
  unfold apply
  split
  · next h => exact priorityMask_run h
  · rfl

@[simp] theorem size_applyAll (t : LineTable) (cs : List Command) :
    (t.applyAll cs).size = t.size := by
  induction cs generalizing t with
  | nil => rfl
  | cons c cs ih => simp [ih]

@[simp] theorem now_applyAll (t : LineTable) (cs : List Command) :
    (t.applyAll cs).now = t.now := by
  induction cs generalizing t with
  | nil => rfl
  | cons c cs ih => simp [ih]

@[simp] theorem priorityMask_applyAll (t : LineTable) (cs : List Command) :
    (t.applyAll cs).priorityMask = t.priorityMask := by
  induction cs generalizing t with
  | nil => rfl
  | cons c cs ih => simp [ih]

end LineTable

end Irq
