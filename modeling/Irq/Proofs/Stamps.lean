import Irq.Proofs.Moments

/-!
# Irq.Proofs.Stamps

Stamps are carried along and never looked at. Two lines may agree in everything but their stamps,
and their stamps agree once each is looked at in its own way: when both are forgotten, say, or when
those of one are moved by a fixed distance. Then they still do so after the same event, if the
clocks that the event stamps with agree in that way too (`MatchedBy.happen`).
-/

namespace Irq

/-- The line with its stamp replaced by what is seen of it. -/
def Line.restamp (f : Option Nat → Option Nat) (l : Line) : Line := { l with since := f l.since }

/-- Whether two tables agree in all that an event writes to their lines, once the stamps of the
first are looked at by `f` and those of the second by `f'`. -/
structure LineTable.MatchedBy (f f' : Option Nat → Option Nat) (t t' : LineTable) : Prop where
  mask : t.priorityMask = t'.priorityMask
  unstamped : f none = f' none
  stamped : f (some t.now) = f' (some t'.now)
  lines : ∀ i : Nat, t.lines[i]?.map (Line.restamp f) = t'.lines[i]?.map (Line.restamp f')

namespace Line

variable {f f' : Option Nat → Option Nat} {now now' : Nat} {l l' : Line}

/-- Lines that match differ in nothing but their stamps, and these match. -/
theorem restamp_eq_iff :
    l.restamp f = l'.restamp f' ↔ ∃ s', l' = { l with since := s' } ∧ f l.since = f' s' := by
  constructor
  · obtain ⟨_, _, _, _, _, s'⟩ := l'
    intro hl
    simp only [restamp, mk.injEq] at hl
    obtain ⟨rfl, rfl, rfl, rfl, rfl, hs⟩ := hl
    exact ⟨s', rfl, hs⟩
  · rintro ⟨s', rfl, hs⟩
    rw [restamp, hs]
    rfl

/-- Withdrawals keep lines matching. -/
theorem restamp_lower (hnone : f none = f' none) (hl : l.restamp f = l'.restamp f') :
    l.lower.restamp f = l'.lower.restamp f' := by
  obtain ⟨s', rfl, -⟩ := restamp_eq_iff.mp hl
  exact restamp_eq_iff.mpr ⟨none, rfl, hnone⟩

/-- Triggers keep lines matching, if the clocks match. -/
theorem restamp_raise (hnow : f (some now) = f' (some now')) (hl : l.restamp f = l'.restamp f') :
    (l.raise now).restamp f = (l'.raise now').restamp f' := by
  obtain ⟨s', rfl, hs⟩ := restamp_eq_iff.mp hl
  refine restamp_eq_iff.mpr ?_
  unfold raise
  split
  · exact ⟨s', rfl, hs⟩
  · exact ⟨some now', rfl, hnow⟩

/-- Samples of the same signal keep lines matching, if the clocks match. -/
theorem restamp_sample (hnone : f none = f' none) (hnow : f (some now) = f' (some now'))
    (hl : l.restamp f = l'.restamp f') (signal : Bool) :
    (l.sample now signal).restamp f = (l'.sample now' signal).restamp f' := by
  obtain ⟨s', rfl, hs⟩ := restamp_eq_iff.mp hl
  have hsampled : restamp f { l with input := signal } =
      restamp f' { l with input := signal, since := s' } := restamp_eq_iff.mpr ⟨s', rfl, hs⟩
  unfold sample
  cases l.attributes.trigger <;> dsimp only <;> split
  · exact restamp_raise hnow hsampled
  · exact hsampled
  · exact restamp_raise hnow hsampled
  · exact restamp_lower hnone hsampled

/-- Services keep lines matching, if the clocks match. -/
theorem restamp_serve (hnone : f none = f' none) (hnow : f (some now) = f' (some now'))
    (hl : l.restamp f = l'.restamp f') :
    (l.serve now).restamp f = (l'.serve now').restamp f' := by
  obtain ⟨s', rfl, -⟩ := restamp_eq_iff.mp hl
  unfold serve
  cases l.attributes.trigger with
  | edge => exact restamp_lower hnone hl
  | level => exact restamp_eq_iff.mpr ⟨some now', rfl, hnow⟩

end Line

namespace LineTable.MatchedBy

variable {f f' : Option Nat → Option Nat} {t t' : LineTable} {l l' : Line}

/-- A command keeps lines matching. -/
theorem effect (ht : t.MatchedBy f f' t') (cmd : Command) (hl : l.restamp f = l'.restamp f') :
    (t.effect cmd l).restamp f = (t'.effect cmd l').restamp f' := by
  cases cmd with
  | configure _ priority _ | setPriority _ priority =>
    obtain ⟨s', rfl, hs⟩ := Line.restamp_eq_iff.mp hl
    have hpriority : t.maskPriority priority = t'.maskPriority priority := by
      rw [maskPriority, ht.mask, maskPriority]
    exact Line.restamp_eq_iff.mpr ⟨s', by simp only [LineTable.effect, hpriority], hs⟩
  | setAttributes | enable | disable =>
    obtain ⟨s', rfl, hs⟩ := Line.restamp_eq_iff.mp hl
    exact Line.restamp_eq_iff.mpr ⟨s', rfl, hs⟩
  | setPending => exact Line.restamp_raise ht.stamped hl
  | clearPending => exact Line.restamp_lower ht.unstamped hl
  | sample _ signal => exact Line.restamp_sample ht.unstamped ht.stamped hl signal
  | reset =>
    obtain ⟨s', rfl, -⟩ := Line.restamp_eq_iff.mp hl
    exact Line.restamp_eq_iff.mpr ⟨none, rfl, ht.unstamped⟩

/-- An event keeps lines matching. -/
theorem eventEffect (ht : t.MatchedBy f f' t') (e : Event) (i : Nat)
    (hl : l.restamp f = l'.restamp f') :
    (e.effect t i l).restamp f = (e.effect t' i l').restamp f' := by
  cases e with
  | command cmd =>
    simp only [Event.effect]
    split
    · exact ht.effect cmd hl
    · exact hl
  | delivery d =>
    simp only [Event.effect]
    split
    · exact Line.restamp_serve ht.unstamped ht.stamped hl
    · exact hl
  | threshold | tick | cleared => exact hl

/-- **An event writes to both tables alike.** -/
theorem happen (ht : t.MatchedBy f f' t') (e : Event) (i : Nat) :
    (t.happen e).lines[i]?.map (Line.restamp f) =
      (t'.happen e).lines[i]?.map (Line.restamp f') := by
  have hlines := ht.lines i
  rw [getElem?_happen, getElem?_happen]
  cases hl : t.lines[i]? with
  | none =>
    rw [hl, Option.map_none, eq_comm, Option.map_eq_none_iff] at hlines
    rw [hlines]
    rfl
  | some l =>
    rw [hl, Option.map_some, eq_comm, Option.map_eq_some_iff] at hlines
    obtain ⟨l', hl', hsame⟩ := hlines
    rw [hl']
    exact congrArg some (ht.eventEffect e i hsame.symm)

end LineTable.MatchedBy

end Irq
