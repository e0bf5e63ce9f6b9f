import Irq.Proofs.Untimed

/-!
# Irq.Proofs.Independence

Clients that do not meet. A client is the owner of one line or of the threshold of one context, and
its operations are those that name what it owns. What such an operation answers and changes is
settled by what its client owns, and by nothing else that an operation could change (`step_own`);
to all other clients it changes nothing (`step_other`). So each client of a run is answered as if it
were alone, and the run ends in the same controller in whatever order the clients take their turns.
-/

namespace Irq

/-- A client of a controller. -/
inductive Client where
  /-- The owner of a line, which need not exist. -/
  | line (id : Nat)
  /-- The owner of the threshold of a context, which need not exist. -/
  | context (number : Nat)
  deriving DecidableEq

/-- The client that an operation belongs to. Polls, resets, accesses to registers and samples of all
inputs at once belong to none. -/
def Operation.client? : Operation → Option Client
  | access a => a.line?.map .line
  | setThreshold context _ | threshold context | blocked _ context => some (.context context)
  | selectNext _ | pendingRequest _ | poll _ | drain _ _ | awaitService _ _ _
  | measureLatency _ _ _ | reset | load _ _ | store _ _ _ | storeBytes _ _ | sampleAll _
  | isRequesting | size | serviceCount _ => none

/-- The operations of a client, in their order. -/
def operationsOf (k : Client) (ops : List Operation) : List Operation :=
  ops.filter (·.client? == some k)

/-- The answers to the operations of a client, in their order. -/
def answersTo (k : Client) (ops : List Operation) (answers : List (Except Error Response)) :
    List (Except Error Response) :=
  ((ops.zip answers).filter fun x => x.1.client? == some k).map Prod.snd

/-- Whether operations are an interleaving of lists, one for each client: those of a client come in
the order of its list, and there are no others. -/
def Interleaves (lists : Client → List Operation) (ops : List Operation) : Prop :=
  (∀ op ∈ ops, op.client?.isSome) ∧ ∀ k, operationsOf k ops = lists k

/-- Whether two controllers are the same to a client: what it owns is the same in both, and so is
what no client can change. -/
structure Controller.SameTo {σ : Type} (k : Client) (c d : Controller σ) : Prop where
  size : c.table.size = d.table.size
  mask : c.table.priorityMask = d.table.priorityMask
  now : c.table.now = d.table.now
  contexts : c.thresholds.size = d.thresholds.size
  line : ∀ id : Nat, k = .line id → c.table.lines[id]? = d.table.lines[id]?
  level : ∀ i : Nat, k = .context i → c.thresholds.levels[i]? = d.thresholds.levels[i]?

/-! ## Accesses to one line -/

namespace LineTable

variable {t t' : LineTable}

/-- What a command does to a line depends on mask and clock alone. -/
theorem effect_congr (hmask : t.priorityMask = t'.priorityMask) (hnow : t.now = t'.now) :
    t.effect = t'.effect := by
  funext cmd l
  cases cmd <;> simp only [effect, maskPriority, hmask, hnow]

theorem line_congr (hsize : t.size = t'.size) {id : Nat} (hline : t.lines[id]? = t'.lines[id]?) :
    t.line id = t'.line id := by
  simp only [line, noLine, hsize, hline]

/-- A command that names another line leaves a line as it is. -/
theorem getElem?_apply_of_ne {cmd : Command} {id i : Nat} (hid : cmd.line? = some id)
    (hne : id ≠ i) : (t.apply cmd).lines[i]? = t.lines[i]? := by
  rw [getElem?_apply]
  have hfar : cmd.concerns i = false := by simp [Command.concerns, hid, hne]
  simp [hfar]

/-- What an access to a line answers depends on that line alone. -/
theorem fst_access_congr (hsize : t.size = t'.size) {a : Access} {id : Nat}
    (hid : a.line? = some id) (hline : t.lines[id]? = t'.lines[id]?) :
    (t.access a).1 = (t'.access a).1 := by
  cases a with
  | command cmd => exact map_run_congr hsize rfl _
  | isPending i | isEnabled i | line i | lineText i =>
    cases hid
    simp only [access, line_congr hsize hline]
  | summary => cases hid

end LineTable

namespace Controller

variable {σ : Type} {h : Handler σ} {c d e : Controller σ} {k : Client} {op : Operation}

/-- A new threshold is stored for its context, if that exists, and for no other. -/
theorem getElem?_setThreshold (c : Controller σ) (context : Nat) (level : UInt8) (i : Nat) :
    (c.setThreshold context level).2.thresholds.levels[i]? =
      c.thresholds.levels[i]?.map fun old => if context = i then level else old := by
  by_cases hlt : context < c.thresholds.levels.size
  · have hset : c.thresholds.set context level =
        .ok ⟨c.thresholds.levels.setIfInBounds context level⟩ := by
      simp [Thresholds.set, Thresholds.check, Thresholds.size, hlt, Except.map]
    by_cases hi : context = i
    · subst hi
      simp [setThreshold, hset, hlt]
    · simp [setThreshold, hset, hi]
  · have hset : c.thresholds.set context level = .error (.invalidContext context _) :=
      Thresholds.set_eq_error_iff.mpr ⟨Nat.not_lt.mp hlt, rfl⟩
    by_cases hi : context = i
    · simp [setThreshold, hset, ← hi, Nat.not_lt.mp hlt]
    · simp [setThreshold, hset, hi]

theorem size_setThreshold (c : Controller σ) (context : Nat) (level : UInt8) :
    (c.setThreshold context level).2.thresholds.size = c.thresholds.size := by
  unfold setThreshold
  cases hset : c.thresholds.set context level with
  | error e => rfl
  | ok g => exact Thresholds.size_set hset

/-- Setting a threshold leaves the line table. -/
theorem table_setThreshold (c : Controller σ) (context : Nat) (level : UInt8) :
    (c.setThreshold context level).2.table = c.table := by
  unfold setThreshold
  cases c.thresholds.set context level <;> rfl

/-! ## What an operation is to its client and to others -/

namespace SameTo

theorem refl (k : Client) (c : Controller σ) : SameTo k c c := by
  constructor <;> intros <;> rfl

theorem symm (hcd : SameTo k c d) : SameTo k d c where
  size := hcd.size.symm
  mask := hcd.mask.symm
  now := hcd.now.symm
  contexts := hcd.contexts.symm
  line id hk := (hcd.line id hk).symm
  level i hk := (hcd.level i hk).symm

theorem trans (hcd : SameTo k c d) (hde : SameTo k d e) : SameTo k c e where
  size := hcd.size.trans hde.size
  mask := hcd.mask.trans hde.mask
  now := hcd.now.trans hde.now
  contexts := hcd.contexts.trans hde.contexts
  line id hk := (hcd.line id hk).trans (hde.line id hk)
  level i hk := (hcd.level i hk).trans (hde.level i hk)

/-- A command to a line is the same to its owner wherever it is given. -/
theorem command {id : Nat} (hcd : SameTo (.line id) c d) (cmd : Command) :
    SameTo (.line id) (c.command cmd).2 (d.command cmd).2 where
  size := by simp [Controller.command, hcd.size]
  mask := by simp [Controller.command, hcd.mask]
  now := by simp [Controller.command, hcd.now]
  contexts := hcd.contexts
  line i hk := by
    cases hk
    simp only [Controller.command, LineTable.getElem?_apply, hcd.line id rfl,
      LineTable.effect_congr hcd.mask hcd.now]
  level i hk := by cases hk

/-- A new threshold is the same to the owner of the threshold wherever it is set. -/
theorem setThreshold {context : Nat} (hcd : SameTo (.context context) c d) (level : UInt8) :
    SameTo (.context context) (c.setThreshold context level).2
      (d.setThreshold context level).2 where
  size := by simp [table_setThreshold, hcd.size]
  mask := by simp [table_setThreshold, hcd.mask]
  now := by simp [table_setThreshold, hcd.now]
  contexts := by simp [size_setThreshold, hcd.contexts]
  line i hk := by cases hk
  level i hk := by
    cases hk
    simp [getElem?_setThreshold, hcd.level context rfl]

theorem get {context : Nat} (hcd : SameTo (.context context) c d) :
    c.thresholds.get context = d.thresholds.get context := by
  simp only [Thresholds.get, Thresholds.noContext, hcd.level context rfl, hcd.contexts]

/-- **An operation answers its client by what the client owns**, and changes it by nothing else. -/
theorem step_own (hop : op.client? = some k) (hcd : SameTo k c d) :
    (c.step h op).1 = (d.step h op).1 ∧ SameTo k (c.step h op).2 (d.step h op).2 := by
  cases op with
  | access a =>
    obtain ⟨id, ha, rfl⟩ := Option.map_eq_some_iff.mp hop
    have hanswer := LineTable.fst_access_congr hcd.size ha (hcd.line id rfl)
    refine ⟨congrArg (Except.map Response.answer) hanswer, ?_⟩
    cases a with
    | command cmd => exact hcd.command cmd
    | isPending _ | isEnabled _ | line _ | lineText _ | summary => exact hcd
  | setThreshold context level =>
    cases hop
    refine ⟨?_, hcd.setThreshold level⟩
    simp only [Controller.step, Controller.setThreshold, Thresholds.set, Thresholds.check,
      Thresholds.noContext, hcd.contexts]
    by_cases hlt : context < d.thresholds.size <;> simp [hlt, Except.map]
  | threshold context =>
    cases hop
    simp only [Controller.step, hcd.get]
    exact ⟨trivial, hcd⟩
  | blocked priority context =>
    cases hop
    simp only [Controller.step, Thresholds.blocked, hcd.get]
    exact ⟨trivial, hcd⟩
  | selectNext | pendingRequest | poll | drain | awaitService | measureLatency | reset | load
  | store | storeBytes | sampleAll | isRequesting | size | serviceCount => cases hop

/-- **An operation is nothing to other clients** than its own. -/
theorem step_other {other : Client} (hop : op.client? = some other) (hne : other ≠ k) :
    SameTo k (c.step h op).2 c := by
  cases op with
  | access a =>
    obtain ⟨id, ha, rfl⟩ := Option.map_eq_some_iff.mp hop
    cases a with
    | command cmd =>
      have hline (i : Nat) (hk : k = .line i) :
          (c.table.apply cmd).lines[i]? = c.table.lines[i]? := by
        have hi : id ≠ i := fun hi => hne (hi ▸ hk.symm)
        exact LineTable.getElem?_apply_of_ne ha hi
      exact ⟨LineTable.size_apply c.table cmd, LineTable.priorityMask_apply c.table cmd,
        LineTable.now_apply c.table cmd, rfl, hline, fun _ _ => rfl⟩
    | isPending _ | isEnabled _ | line _ | lineText _ | summary => exact refl k c
  | setThreshold context level =>
    cases hop
    have htable := table_setThreshold c context level
    have hlevel (i : Nat) (hk : k = .context i) :
        (c.setThreshold context level).2.thresholds.levels[i]? = c.thresholds.levels[i]? := by
      have hi : context ≠ i := fun hi => hne (hi ▸ hk.symm)
      simp [getElem?_setThreshold, hi]
    exact ⟨congrArg LineTable.size htable, congrArg LineTable.priorityMask htable,
      congrArg LineTable.now htable, size_setThreshold c context level,
      fun i _ => congrArg (·.lines[i]?) htable, hlevel⟩
  | threshold _ | blocked _ _ => exact refl k c
  | selectNext | pendingRequest | poll | drain | awaitService | measureLatency | reset | load
  | store | storeBytes | sampleAll | isRequesting | size | serviceCount => cases hop

/-- **A client of a run is answered as if it were alone**, and ends with what it would have then. -/
theorem run {ops : List Operation} (hops : ∀ op ∈ ops, op.client?.isSome) (hcd : SameTo k c d) :
    answersTo k ops (c.run h ops).1 = (d.run h (operationsOf k ops)).1 ∧
      SameTo k (c.run h ops).2 (d.run h (operationsOf k ops)).2 := by
  induction ops generalizing c d with
  | nil => exact ⟨rfl, hcd⟩
  | cons op ops ih =>
    obtain ⟨owner, howner⟩ := Option.isSome_iff_exists.mp (hops op List.mem_cons_self)
    have hrest : ∀ op ∈ ops, op.client?.isSome := fun op hop => hops op (List.mem_cons_of_mem _ hop)
    by_cases hk : owner = k
    · subst hk
      obtain ⟨hanswer, hnext⟩ := step_own (h := h) howner hcd
      obtain ⟨hanswers, hend⟩ := ih hrest hnext
      have hown : operationsOf owner (op :: ops) = op :: operationsOf owner ops := by
        simp [operationsOf, howner]
      rw [hown, run_cons, run_cons, ← hanswers, ← hanswer]
      exact ⟨by simp [answersTo, howner], hend⟩
    · obtain ⟨hanswers, hend⟩ := ih hrest ((step_other (h := h) howner hk).trans hcd)
      have hown : operationsOf k (op :: ops) = operationsOf k ops := by
        simp [operationsOf, howner, hk]
      rw [hown, run_cons, ← hanswers]
      exact ⟨by simp [answersTo, howner, hk], hend⟩

end SameTo

/-! ## What no client changes -/

/-- The operations of clients neither deliver nor clear anything. -/
theorem rest_step (c : Controller σ) (hop : op.client? = some k) :
    (c.step h op).2.record = c.record ∧ (c.step h op).2.memory = c.memory := by
  cases op with
  | setThreshold context level =>
    simp only [step, setThreshold]
    cases c.thresholds.set context level <;> exact ⟨rfl, rfl⟩
  | access _ | threshold _ | blocked _ _ => exact ⟨rfl, rfl⟩
  | selectNext | pendingRequest | poll | drain | awaitService | measureLatency | reset | load
  | store | storeBytes | sampleAll | isRequesting | size | serviceCount => cases hop

/-- Clients leave the record and the memory of the handler. -/
theorem rest_run (c : Controller σ) {ops : List Operation}
    (hops : ∀ op ∈ ops, op.client?.isSome) :
    (c.run h ops).2.record = c.record ∧ (c.run h ops).2.memory = c.memory := by
  induction ops generalizing c with
  | nil => exact ⟨rfl, rfl⟩
  | cons op ops ih =>
    obtain ⟨owner, howner⟩ := Option.isSome_iff_exists.mp (hops op List.mem_cons_self)
    have hhead := rest_step (h := h) c howner
    have hrest := ih (c.step h op).2 fun op hop => hops op (List.mem_cons_of_mem _ hop)
    exact ⟨hrest.1.trans hhead.1, hrest.2.trans hhead.2⟩

/-- What belongs to no client apart, a controller is what its clients own. -/
theorem ext_clients (hrecord : c.record = d.record) (hmemory : c.memory = d.memory)
    (hsame : ∀ k, SameTo k c d) : c = d := by
  have htable : c.table = d.table :=
    LineTable.ext_lines (hsame (.line 0)).mask (hsame (.line 0)).now
      fun i => (hsame (.line i)).line i rfl
  have hlevels : c.thresholds.levels = d.thresholds.levels :=
    Array.ext_getElem? fun i => (hsame (.context i)).level i rfl
  obtain ⟨table, ⟨levels⟩, record, memory⟩ := c
  obtain ⟨table', ⟨levels'⟩, record', memory'⟩ := d
  grind

/-- **Independent clients do not meet.** Let each client have a list of operations, those of a line
its commands and questions, those of a context its threshold, whether line and context exist or not.
However the clients take their turns, each is answered as if it were alone, and all ends in the same
controller, sampled inputs and stamps included. -/
theorem interleavings_agree (h : Handler σ) (c : Controller σ) (lists : Client → List Operation)
    (ops ops' : List Operation) (hops : Interleaves lists ops) (hops' : Interleaves lists ops') :
    (c.run h ops).2 = (c.run h ops').2 ∧
      ∀ k, answersTo k ops (c.run h ops).1 = (c.run h (lists k)).1 ∧
        answersTo k ops' (c.run h ops').1 = (c.run h (lists k)).1 := by
  have halone {ops : List Operation} (hops : Interleaves lists ops) (k : Client) :
      answersTo k ops (c.run h ops).1 = (c.run h (lists k)).1 ∧
        SameTo k (c.run h ops).2 (c.run h (lists k)).2 := by
    rw [← hops.2 k]
    exact SameTo.run hops.1 (SameTo.refl k c)
  obtain ⟨hrecord, hmemory⟩ := rest_run (h := h) c hops.1
  obtain ⟨hrecord', hmemory'⟩ := rest_run (h := h) c hops'.1
  refine ⟨?_, fun k => ⟨(halone hops k).1, (halone hops' k).1⟩⟩
  refine ext_clients (hrecord.trans hrecord'.symm) (hmemory.trans hmemory'.symm) fun k => ?_
  exact (halone hops k).2.trans (halone hops' k).2.symm

/-- Two lines, one that does not exist and a threshold. Their owners take turns, or come one after
another; the second line is edge triggered, so that its answers show a sampled input and a stamp. -/
theorem interleavings_agree_of_four :
    let h : Handler Unit := .passive
    let c := ofGeometry { lines := 2, contexts := 1, priorityBits := 4 } ()
    let first : List Operation :=
      [.access (.command (.configure 0 19 ⟨.level, .negative⟩)),
        .access (.command (.sample 0 true)), .access (.isPending 0)]
    let second : List Operation :=
      [.access (.command (.setAttributes 1 6)), .access (.command (.sample 1 true)),
        .access (.line 1)]
    let missing : List Operation := [.access (.command (.setPending 2)), .access (.isPending 2)]
    let gate : List Operation := [.setThreshold 0 7, .threshold 0]
    let lists : Client → List Operation
      | .line 0 => first
      | .line 1 => second
      | .line 2 => missing
      | .context 0 => gate
      | _ => []
    let ops := first ++ second ++ missing ++ gate
    let ops' := gate.take 1 ++ second.take 2 ++ missing ++ first ++ second.drop 2 ++ gate.drop 1
    Interleaves lists ops ∧ Interleaves lists ops' ∧ (c.run h ops).2 = (c.run h ops').2 ∧
      answersTo (.line 1) ops' (c.run h ops').1 =
        [.ok (.answer .done), .ok (.answer .done),
          .ok (.answer (.line ⟨0, ⟨.edge, .positive⟩, false, true, true, some 0⟩))] := by
  intro h c first second missing gate lists ops ops'
  have hinterleaves {ops : List Operation} (hclients : ∀ op ∈ ops, op.client?.isSome)
      (hline : ∀ id, operationsOf (.line id) ops = lists (.line id))
      (hcontext : ∀ i, operationsOf (.context i) ops = lists (.context i)) :
      Interleaves lists ops := by
    refine ⟨hclients, fun k => ?_⟩
    cases k with
    | line id => exact hline id
    | context i => exact hcontext i
  have hops : Interleaves lists ops := by
    refine hinterleaves (by decide) (fun id => ?_) (fun i => ?_)
    · rcases id with _ | _ | _ | id <;> rfl
    · rcases i with _ | i <;> rfl
  have hops' : Interleaves lists ops' := by
    refine hinterleaves (by decide) (fun id => ?_) (fun i => ?_)
    · rcases id with _ | _ | _ | id <;> rfl
    · rcases i with _ | i <;> rfl
  have hagree := interleavings_agree h c lists ops ops' hops hops'
  exact ⟨hops, hops', hagree.1, (hagree.2 (.line 1)).2.trans rfl⟩

end Controller

end Irq
