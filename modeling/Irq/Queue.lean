import Irq.Arbitration

/-!
# Irq.Queue

The requests that a context could service, in the order of their urgency. Arbitration does not build
this list; it looks for its head alone, and `winner_eq_head?` says that it finds it.
-/

namespace Irq

namespace Request

/-- The order of requests, as a test. -/
def le (a b : Request) : Bool := !decide (b.precedes a)

/-- The order of requests is that of the priorities, and then that of the lines. -/
theorem precedes_iff {a b : Request} :
    a.precedes b ↔ a.priority.toNat < b.priority.toNat ∨
      (a.priority.toNat = b.priority.toNat ∧ a.line < b.line) := by
  simp only [precedes, UInt8.lt_iff_toNat_lt, UInt8.toNat_inj]

theorem le_iff {a b : Request} : a.le b = true ↔ ¬ b.precedes a := by
  simp [le]

/-- The order of requests is transitive. -/
theorem le_trans (a b c : Request) (hab : a.le b = true) (hbc : b.le c = true) :
    a.le c = true := by
  rw [le_iff, precedes_iff] at *
  omega

/-- Of two requests one comes no later than the other. -/
theorem le_total (a b : Request) : (a.le b || b.le a) = true := by
  rw [Bool.or_eq_true, le_iff, le_iff, precedes_iff, precedes_iff]
  omega

/-- Of two requests of different lines one precedes the other. -/
theorem precedes_of_le {a b : Request} (hab : a.le b = true) (hne : a.line ≠ b.line) :
    a.precedes b := by
  rw [le_iff, precedes_iff] at hab
  rw [precedes_iff]
  omega

end Request

namespace LineTable

/-- The requests of all eligible lines, by line number. -/
def requests (t : LineTable) (threshold : UInt8) : List Request :=
  (List.range t.size).filterMap (t.request? threshold)

/-- The requests of all eligible lines, the most urgent first. -/
def queue (t : LineTable) (threshold : UInt8) : List Request :=
  (t.requests threshold).mergeSort Request.le

/-- The request at a line is of that line, which exists. -/
theorem line_of_request? {t : LineTable} {threshold : UInt8} {id : Nat} {r : Request}
    (h : t.request? threshold id = some r) : r.line = id ∧ id < t.size := by
  obtain ⟨l, hl, -, rfl⟩ := request?_eq_some_iff.mp h
  exact ⟨rfl, (Array.getElem?_eq_some_iff.mp hl).1⟩

/-- **What stands in the queue**: the requests of the eligible lines, and nothing else. -/
theorem mem_queue {t : LineTable} {threshold : UInt8} {r : Request} :
    r ∈ t.queue threshold ↔ t.request? threshold r.line = some r := by
  simp only [queue, List.mem_mergeSort, requests, List.mem_filterMap, List.mem_range]
  constructor
  · rintro ⟨id, -, hr⟩
    rwa [(line_of_request? hr).1]
  · intro hr
    exact ⟨r.line, (line_of_request? hr).2, hr⟩

/-- No line stands in the queue twice. -/
theorem pairwise_line_ne_requests (t : LineTable) (threshold : UInt8) :
    (t.requests threshold).Pairwise fun a b => a.line ≠ b.line := by
  rw [requests, List.pairwise_filterMap]
  refine List.Pairwise.imp ?_ List.nodup_range
  intro i j hij a ha b hb
  rwa [(line_of_request? ha).1, (line_of_request? hb).1]

/-- **The queue is in strict order.** -/
theorem pairwise_queue (t : LineTable) (threshold : UInt8) :
    (t.queue threshold).Pairwise Request.precedes := by
  have hle := List.pairwise_mergeSort Request.le_trans Request.le_total (t.requests threshold)
  have hne := ((List.mergeSort_perm (t.requests threshold) Request.le).pairwise_iff
    fun h => Ne.symm h).mpr (pairwise_line_ne_requests t threshold)
  exact (hle.and hne).imp fun h => Request.precedes_of_le h.1 h.2

/-- **Arbitration finds the head of the queue.** -/
theorem winner_eq_head? (t : LineTable) (threshold : UInt8) :
    t.winner threshold = (t.queue threshold).head? := by
  cases hq : t.queue threshold with
  | nil =>
    cases hw : t.winner threshold with
    | none => rfl
    | some w =>
      have hmem := mem_queue.mpr (winnerBelow_sound hw).2
      simp [hq] at hmem
  | cons r rs =>
    have hr := mem_queue.mp (hq ▸ List.mem_cons_self : r ∈ t.queue threshold)
    obtain ⟨w, hw, hwr⟩ := winnerBelow_least (line_of_request? hr).2 hr
    rcases hwr with rfl | hwr
    · exact hw
    · have hmem := mem_queue.mpr (winnerBelow_sound hw).2
      have hsorted := pairwise_queue t threshold
      rw [hq] at hmem hsorted
      rcases List.mem_cons.mp hmem with rfl | hrest
      · exact hw
      · have hrw := (List.pairwise_cons.mp hsorted).1 w hrest
        rw [Request.precedes_iff] at hwr hrw
        omega

end LineTable

end Irq
