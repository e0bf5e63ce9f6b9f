import Irq.Json.Reader

/-!
# Irq.Json.Natural

Natural numbers written in decimal digits, and read back. The main statement is
`read_natural_toDigits`: the digits of a number that is small enough are read as that number, behind
any blanks and up to any text that does not go on with the number.
-/

namespace Irq.Json

/-- A number ends in front of the text: the text does not start with what could be a part of it. -/
def EndsNumeral (s : List Char) : Prop :=
  ∀ c ∈ s.head?, c.isDigit = false ∧ c ≠ '.' ∧ c ≠ 'e' ∧ c ≠ 'E'

/-- The end of the text ends a number. -/
theorem endsNumeral_nil : EndsNumeral [] := by simp [EndsNumeral]

/-- A character that is no part of a number ends it. -/
theorem endsNumeral_cons {c : Char} (h : c.isDigit = false ∧ c ≠ '.' ∧ c ≠ 'e' ∧ c ≠ 'E')
    (s : List Char) : EndsNumeral (c :: s) := by
  simpa [EndsNumeral] using h

/-- A blank ends a number. -/
theorem endsNumeral_of_isBlank {c : Char} (h : isBlank c = true) (s : List Char) :
    EndsNumeral (c :: s) := by
  simp only [isBlank, Bool.or_eq_true, beq_iff_eq] at h
  rcases h with ((rfl | rfl) | rfl) | rfl <;> exact endsNumeral_cons (by decide) s

/-! ## The parts of a number -/

/-- Digits are read up to where the number ends. -/
theorem digits_append {ds rest : List Char} (hds : ∀ c ∈ ds, c.isDigit = true) (hne : ds ≠ [])
    (hrest : EndsNumeral rest) : digits (ds ++ rest) = .ok (ds, rest) := by
  have htake : rest.takeWhile Char.isDigit = [] := by
    cases rest with
    | nil => rfl
    | cons c rest => simp [(hrest c rfl).1]
  have hdrop : rest.dropWhile Char.isDigit = rest := by
    cases rest with
    | nil => rfl
    | cons c rest => simp [(hrest c rfl).1]
  unfold digits
  rw [List.takeWhile_append_of_pos hds, List.dropWhile_append_of_pos hds, htake, hdrop,
    List.append_nil]
  cases ds with
  | nil => exact absurd rfl hne
  | cons d ds => rfl

/-- Where the number ends there is no fraction. -/
theorem fractionPart_of_endsNumeral {s : List Char} (h : EndsNumeral s) :
    fractionPart s = .ok (none, s) := by
  unfold fractionPart
  split
  · exact absurd rfl (h '.' rfl).2.1
  · rfl

/-- Where the number ends there is no exponent. -/
theorem exponentPart_of_endsNumeral {s : List Char} (h : EndsNumeral s) :
    exponentPart s = .ok (none, s) := by
  unfold exponentPart
  split
  · next c _ =>
    have hc := h c rfl
    simp [hc.2.2.1, hc.2.2.2]
  · rfl

/-! ## Decimal digits -/

/-- The digits of a number other than zero do not start with a zero. -/
theorem head?_toDigits_ne_zero {n : Nat} (h : 0 < n) : (Nat.toDigits 10 n).head? ≠ some '0' := by
  induction n using Nat.strongRecOn with
  | _ n ih =>
    by_cases hn : n < 10
    · rw [Nat.toDigits_of_lt_base hn]
      have hall : ∀ m < 10, 0 < m → [Nat.digitChar m].head? ≠ some '0' := by decide
      exact hall n hn h
    · rw [Nat.toDigits_of_base_le (by omega) (by omega), List.head?_append]
      have hne := ih (n / 10) (by omega) (by omega)
      cases hd : Nat.toDigits 10 (n / 10) with
      | nil => exact absurd hd Nat.toDigits_ne_nil
      | cons d ds => simpa [hd] using hne

/-- The digits of a number are a whole part, with no zero too many. -/
theorem wholePart_toDigits (n : Nat) {rest : List Char} (hrest : EndsNumeral rest) :
    wholePart (Nat.toDigits 10 n ++ rest) = .ok (Nat.toDigits 10 n, rest) := by
  by_cases hn : n = 0
  · subst hn
    have hnone : rest.head?.any Char.isDigit = false := by
      cases rest with
      | nil => rfl
      | cons c rest => simpa using (hrest c rfl).1
    simp [wholePart, hnone]
  · have hhead := head?_toDigits_ne_zero (Nat.pos_of_ne_zero hn)
    unfold wholePart
    split
    · next s hs =>
      cases hd : Nat.toDigits 10 n with
      | nil => exact absurd hd Nat.toDigits_ne_nil
      | cons d ds =>
        rw [hd, List.cons_append, List.cons.injEq] at hs
        rw [hd, List.head?_cons] at hhead
        exact absurd (congrArg some hs.1) hhead
    · exact digits_append (fun c hc => Nat.isDigit_of_mem_toDigits (by omega) (by omega) hc)
        Nat.toDigits_ne_nil hrest

/-- The first character of a written number is a digit. -/
theorem exists_toDigits_eq_cons (n : Nat) :
    ∃ d ds, Nat.toDigits 10 n = d :: ds ∧ d.isDigit = true := by
  cases hd : Nat.toDigits 10 n with
  | nil => exact absurd hd Nat.toDigits_ne_nil
  | cons d ds =>
    exact ⟨d, ds, rfl, Nat.isDigit_of_mem_toDigits (b := 10) (n := n) (by omega) (by omega)
      (hd ▸ List.mem_cons_self)⟩

/-- The digits of a number are read as a number of these digits and nothing else. -/
theorem numeral_toDigits (n : Nat) {rest : List Char} (hrest : EndsNumeral rest) :
    numeral (Nat.toDigits 10 n ++ rest) = .ok (⟨false, Nat.toDigits 10 n, none, none⟩, rest) := by
  obtain ⟨d, ds, hd, hdigit⟩ := exists_toDigits_eq_cons n
  have hne : d ≠ '-' := by
    rintro rfl
    simp at hdigit
  unfold numeral
  split
  · next hs =>
    rw [hd, List.cons_append, List.cons.injEq] at hs
    exact absurd hs.1 hne
  · simp [unsigned, wholePart_toDigits n hrest, fractionPart_of_endsNumeral hrest,
      exponentPart_of_endsNumeral hrest]

/-- The digits of a number that fits into a word have its value. -/
theorem natural?_toDigits {n : Nat} (h : n ≤ wordMax) :
    Numeral.natural? ⟨false, Nat.toDigits 10 n, none, none⟩ = some n := by
  simp [Numeral.natural?, Nat.ofDigitChars_toDigits, h]

/-- **Numbers that were written are read back**, if they are not above the most that is wanted. -/
theorem read_natural_toDigits {n most : Nat} (hn : n ≤ most) (hmost : most ≤ wordMax)
    {ws rest : List Char} (hws : ∀ c ∈ ws, isBlank c = true) (hrest : EndsNumeral rest) :
    (natural most).read (ws ++ Nat.toDigits 10 n ++ rest) = .ok (n, rest) := by
  obtain ⟨d, ds, hd, hdigit⟩ := exists_toDigits_eq_cons n
  have hblank : isBlank d = false := by
    cases hb : isBlank d with
    | false => rfl
    | true => simpa [hdigit] using (endsNumeral_of_isBlank hb []) d rfl
  have hread := numeral_toDigits n hrest
  have hvalue := natural?_toDigits (Nat.le_trans hn hmost)
  have hstart : startsNumeral d = true := by simp [startsNumeral, hdigit]
  rw [hd] at hread hvalue
  rw [List.cons_append] at hread
  show readNatural most _ = _
  rw [List.append_assoc, hd, List.cons_append]
  simp [readNatural, skipBlanks_append hws, skipBlanks_of_not_isBlank hblank, hstart, hread,
    hvalue, hn]

end Irq.Json
