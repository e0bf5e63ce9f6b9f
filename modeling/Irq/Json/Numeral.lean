import Irq.Json.Scan

/-!
# Irq.Json.Numeral

Numbers. A number is read whole, whatever is wanted of it afterwards: a sign, a whole part without
superfluous zeros, and perhaps a fraction and an exponent. A number that no double can hold is a
fault of the text, so its size is judged, on the digits that a 64-bit word holds.
-/

namespace Irq.Json

/-- The parts of a number. -/
structure Numeral where
  negative : Bool
  /-- The digits of the whole part. -/
  whole : List Char
  /-- The digits behind the point, if there is one. -/
  fraction : Option (List Char)
  /-- Whether the exponent is negative, and its digits, if there is one. -/
  exponent : Option (Bool × List Char)
  deriving DecidableEq

/-! ## Reading -/

/-- Reads one or more digits. -/
def digits (s : List Char) : Scanned (List Char) :=
  match s.takeWhile Char.isDigit with
  | [] => .error (if s.isEmpty then .truncated else .malformed)
  | d :: ds => .ok (d :: ds, s.dropWhile Char.isDigit)

/-- Reads the whole part: a zero that stands alone, or digits that start with another. -/
def wholePart (s : List Char) : Scanned (List Char) :=
  match s with
  | '0' :: rest =>
    if rest.head?.any Char.isDigit then .error .malformed else .ok (['0'], rest)
  | _ => digits s

/-- Reads the fraction, if there is one. -/
def fractionPart (s : List Char) : Scanned (Option (List Char)) :=
  match s with
  | '.' :: rest =>
    match digits rest with
    | .error e => .error e
    | .ok (ds, rest) => .ok (some ds, rest)
  | _ => .ok (none, s)

/-- Whether a sign is negative, and the text behind it. -/
def sign (s : List Char) : Bool × List Char :=
  match s with
  | '-' :: rest => (true, rest)
  | '+' :: rest => (false, rest)
  | _ => (false, s)

/-- Reads the exponent, if there is one. -/
def exponentPart (s : List Char) : Scanned (Option (Bool × List Char)) :=
  match s with
  | c :: rest =>
    if c = 'e' ∨ c = 'E' then
      match digits (sign rest).2 with
      | .error e => .error e
      | .ok (ds, rest') => .ok (some ((sign rest).1, ds), rest')
    else .ok (none, s)
  | [] => .ok (none, s)

/-- Reads a number that starts behind its sign. -/
def unsigned (negative : Bool) (s : List Char) : Scanned Numeral :=
  match wholePart s with
  | .error e => .error e
  | .ok (whole, s) =>
    match fractionPart s with
    | .error e => .error e
    | .ok (fraction, s) =>
      match exponentPart s with
      | .error e => .error e
      | .ok (exponent, s) => .ok (⟨negative, whole, fraction, exponent⟩, s)

/-- Reads a number. -/
def numeral (s : List Char) : Scanned Numeral :=
  match s with
  | '-' :: rest => unsigned true rest
  | _ => unsigned false s

/-- Whether a number starts with the character. -/
def startsNumeral (c : Char) : Bool := c == '-' || c.isDigit

/-! ## Size -/

/-- The largest number in a 64-bit word. -/
def wordMax : Nat := 0xFFFFFFFFFFFFFFFF

/-- Appends digits to a number for as long as it fits into a word, and gives the digits left. -/
def appendDigits (value : Nat) : List Char → Nat × List Char
  | [] => (value, [])
  | d :: ds =>
    let next := Nat.ofDigitChars 10 [d] value
    if next ≤ wordMax then appendDigits next ds else (value, d :: ds)

namespace Numeral

/-- The number as a whole number and the power of ten it is to be taken times. Digits of the whole
part that no longer fit into the word raise the power; such digits of the fraction are dropped. -/
def scaled (n : Numeral) : Nat × Int :=
  let fraction := n.fraction.getD []
  let (value, high) := appendDigits 0 n.whole
  let (value, dropped) := appendDigits value fraction
  let point : Int := high.length - (fraction.length - dropped.length)
  match n.exponent with
  | none => (value, point)
  | some (true, ds) => (value, point - Nat.ofDigitChars 10 ds 0)
  | some (false, ds) => (value, point + Nat.ofDigitChars 10 ds 0)

/-- Whether the number is beyond all doubles. -/
def isHuge (n : Numeral) : Bool :=
  let (value, power) := n.scaled
  value != 0 && 0 ≤ power &&
    (308 < power || (value.toUInt64.toFloat * Float.ofScientific 1 false power.toNat).isInf)

/-- The value of a number written as digits alone that fits into a word. -/
def natural? (n : Numeral) : Option Nat :=
  let value := Nat.ofDigitChars 10 n.whole 0
  if !n.negative && n.fraction.isNone && n.exponent.isNone && value ≤ wordMax then some value
  else none

end Numeral

/-! ## What is left of the text -/

/-- Digits that were read leave a shorter text. -/
theorem length_digits_lt {s rest ds : List Char} (h : digits s = .ok (ds, rest)) :
    rest.length < s.length := by
  unfold digits at h
  split at h
  · simp at h
  · next d ds' heq =>
    simp only [Except.ok.injEq, Prod.mk.injEq] at h
    have hlen := congrArg List.length
      (List.takeWhile_append_dropWhile (p := Char.isDigit) (l := s))
    rw [heq, h.2, List.length_append, List.length_cons] at hlen
    omega

/-- A whole part that was read leaves a shorter text. -/
theorem length_wholePart_lt {s rest ds : List Char} (h : wholePart s = .ok (ds, rest)) :
    rest.length < s.length := by
  unfold wholePart at h
  split at h
  · split at h
    · simp at h
    · simp only [Except.ok.injEq, Prod.mk.injEq] at h
      simp [h.2]
  · exact length_digits_lt h

/-- A fraction leaves no longer text, whether there was one or not. -/
theorem length_fractionPart_le {s rest : List Char} {ds : Option (List Char)}
    (h : fractionPart s = .ok (ds, rest)) : rest.length ≤ s.length := by
  unfold fractionPart at h
  split at h
  · split at h
    · simp at h
    · next hd =>
      have hlt := length_digits_lt hd
      simp only [Except.ok.injEq, Prod.mk.injEq] at h
      rw [← h.2, List.length_cons]
      omega
  · simp only [Except.ok.injEq, Prod.mk.injEq] at h
    simp [h.2]

/-- A sign leaves no longer text, whether there was one or not. -/
theorem length_sign_le (s : List Char) : (sign s).2.length ≤ s.length := by
  unfold sign
  split <;> simp

/-- An exponent leaves no longer text, whether there was one or not. -/
theorem length_exponentPart_le {s rest : List Char} {ds : Option (Bool × List Char)}
    (h : exponentPart s = .ok (ds, rest)) : rest.length ≤ s.length := by
  unfold exponentPart at h
  split at h
  · next c s' =>
    split at h
    · split at h
      · simp at h
      · next hd =>
        have hlt := length_digits_lt hd
        have hle := length_sign_le s'
        simp only [Except.ok.injEq, Prod.mk.injEq] at h
        rw [← h.2, List.length_cons]
        omega
    · simp only [Except.ok.injEq, Prod.mk.injEq] at h
      simp [← h.2]
  · simp only [Except.ok.injEq, Prod.mk.injEq] at h
    simp [← h.2]

/-- A number without its sign leaves a shorter text. -/
theorem length_unsigned_lt {negative : Bool} {s rest : List Char} {n : Numeral}
    (h : unsigned negative s = .ok (n, rest)) : rest.length < s.length := by
  unfold unsigned at h
  split at h
  · simp at h
  · next hw =>
    have hwhole := length_wholePart_lt hw
    split at h
    · simp at h
    · next hf =>
      have hfraction := length_fractionPart_le hf
      split at h
      · simp at h
      · next he =>
        have hexponent := length_exponentPart_le he
        simp only [Except.ok.injEq, Prod.mk.injEq] at h
        rw [← h.2]
        omega

/-- A number that was read leaves a shorter text. -/
theorem length_numeral_lt {s rest : List Char} {n : Numeral}
    (h : numeral s = .ok (n, rest)) : rest.length < s.length := by
  unfold numeral at h
  split at h
  · have hlt := length_unsigned_lt h
    simp only [List.length_cons]
    omega
  · exact length_unsigned_lt h

end Irq.Json
