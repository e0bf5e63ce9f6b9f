import Irq.Json.Scan

/-!
# Irq.Json.Text

Strings. The opening quote has been read; the string runs to the next quote that is not escaped.
Control characters must be escaped. A character beyond the first plane may be escaped as two halves,
which belong together in a string that is wanted and may stand alone in one that is skipped.
-/

namespace Irq.Json

/-- How escaped halves of a character are read. -/
inductive Halves where
  /-- Each first half is followed by its second. -/
  | paired
  /-- Every half stands for itself. -/
  | any

/-- The value of a hexadecimal digit. -/
def hexDigit? (c : Char) : Option Nat :=
  if c.isDigit then some (c.toNat - '0'.toNat)
  else if 'a' ≤ c ∧ c ≤ 'f' then some (c.toNat - 'a'.toNat + 10)
  else if 'A' ≤ c ∧ c ≤ 'F' then some (c.toNat - 'A'.toNat + 10)
  else none

/-- The length of a text in bytes. -/
def utf8Length (s : List Char) : Nat := s.foldl (fun n c => n + c.utf8Size) 0

/-- Reads four hexadecimal digits. The text is truncated when fewer than four bytes are left. -/
def hexUnit : List Char → Scanned Nat
  | a :: b :: c :: d :: rest =>
    match hexDigit? a, hexDigit? b, hexDigit? c, hexDigit? d with
    | some a, some b, some c, some d => .ok (((a * 16 + b) * 16 + c) * 16 + d, rest)
    | _, _, _, _ => .error .malformed
  | s => .error (if utf8Length s < 4 then .truncated else .malformed)

/-- The character that a letter behind a backslash stands for. -/
def simpleEscape? (c : Char) : Option Char :=
  [('"', '"'), ('\\', '\\'), ('/', '/'), ('b', '\x08'), ('f', '\x0c'), ('n', '\n'), ('r', '\r'),
    ('t', '\t')].lookup c

/-- Whether a unit is the first half of a character. -/
def isFirstHalf (unit : Nat) : Bool := 0xD800 ≤ unit && unit ≤ 0xDBFF

/-- Whether a unit is the second half of a character. -/
def isSecondHalf (unit : Nat) : Bool := 0xDC00 ≤ unit && unit ≤ 0xDFFF

/-- The character with the given halves. -/
def joinHalves (first second : Nat) : Char :=
  .ofNat (0x10000 + (first - 0xD800) * 0x400 + (second - 0xDC00))

/-- Reads the second half of a character. -/
def secondHalf (first : Nat) (s : List Char) : Scanned Char :=
  match expect ['\\', 'u'] s with
  | .error e => .error e
  | .ok rest =>
    match hexUnit rest with
    | .error e => .error e
    | .ok (unit, rest) =>
      if isSecondHalf unit then .ok (joinHalves first unit, rest) else .error .malformed

/-- Reads a character escaped by its number. -/
def unitEscape (halves : Halves) (s : List Char) : Scanned Char :=
  match hexUnit s, halves with
  | .error e, _ => .error e
  | .ok (unit, rest), .any => .ok (.ofNat unit, rest)
  | .ok (unit, rest), .paired =>
    if isSecondHalf unit then .error .malformed
    else if isFirstHalf unit then secondHalf unit rest
    else .ok (.ofNat unit, rest)

/-- Reads what follows a backslash. -/
def escape (halves : Halves) : List Char → Scanned Char
  | [] => .error .truncated
  | 'u' :: rest => unitEscape halves rest
  | c :: rest =>
    match simpleEscape? c with
    | some d => .ok (d, rest)
    | none => .error .malformed

/-- Four hexadecimal digits leave a shorter text. -/
theorem length_hexUnit_lt {s rest : List Char} {unit : Nat} (h : hexUnit s = .ok (unit, rest)) :
    rest.length < s.length := by
  unfold hexUnit at h
  split at h
  · split at h
    · cases h
      simp only [List.length_cons]
      omega
    · cases h
  · cases h

/-- A second half leaves a shorter text. -/
theorem length_secondHalf_lt {first : Nat} {s rest : List Char} {c : Char}
    (h : secondHalf first s = .ok (c, rest)) : rest.length < s.length := by
  unfold secondHalf at h
  split at h
  · simp at h
  · next he =>
    have hle := length_expect_le he
    split at h
    · simp at h
    · next hu =>
      have hlt := length_hexUnit_lt hu
      split at h
      · simp only [Except.ok.injEq, Prod.mk.injEq] at h
        obtain ⟨-, rfl⟩ := h
        omega
      · simp at h

/-- A character escaped by its number leaves a shorter text. -/
theorem length_unitEscape_lt {halves : Halves} {s rest : List Char} {c : Char}
    (h : unitEscape halves s = .ok (c, rest)) : rest.length < s.length := by
  unfold unitEscape at h
  split at h
  · simp at h
  · next hu =>
    simp only [Except.ok.injEq, Prod.mk.injEq] at h
    exact h.2 ▸ length_hexUnit_lt hu
  · next hu =>
    have hlt := length_hexUnit_lt hu
    split at h
    · simp at h
    · split at h
      · have hlt' := length_secondHalf_lt h
        omega
      · simp only [Except.ok.injEq, Prod.mk.injEq] at h
        exact h.2 ▸ hlt

/-- An escape leaves a shorter text. -/
theorem length_escape_lt {halves : Halves} {s rest : List Char} {c : Char}
    (h : escape halves s = .ok (c, rest)) : rest.length < s.length := by
  unfold escape at h
  split at h
  · cases h
  · have hlt := length_unitEscape_lt h
    simp only [List.length_cons]
    omega
  · split at h
    · cases h
      simp
    · cases h

/-- Reads a string to its closing quote. The characters read before are kept with the last first. -/
def textFrom (halves : Halves) (before : List Char) (s : List Char) : Scanned (List Char) :=
  match s with
  | [] => .error .truncated
  | '"' :: rest => .ok (before.reverse, rest)
  | '\\' :: rest =>
    match h : escape halves rest with
    | .error e => .error e
    | .ok (c, rest') =>
      have := length_escape_lt h
      textFrom halves (c :: before) rest'
  | c :: rest =>
    if c < ' ' then .error .malformed else textFrom halves (c :: before) rest
termination_by s.length

/-- Reads a string whose characters are wanted. -/
def text (s : List Char) : Scanned (List Char) := textFrom .paired [] s

/-- The rest of a string leaves a shorter text. -/
theorem length_textFrom_lt {halves : Halves} {before s rest cs : List Char}
    (h : textFrom halves before s = .ok (cs, rest)) : rest.length < s.length := by
  fun_induction textFrom halves before s with
  | case1 => cases h
  | case2 before rest => cases h; simp
  | case3 before rest e he => cases h
  | case4 before rest c rest' he hlt ih =>
    have hrest := ih h
    simp only [List.length_cons]
    omega
  | case5 before c rest hq hb hc => cases h
  | case6 before c rest hq hb hc ih =>
    have hrest := ih h
    simp only [List.length_cons]
    omega

/-- A string that was read leaves a shorter text. -/
theorem length_text_lt {s rest cs : List Char} (h : text s = .ok (cs, rest)) :
    rest.length < s.length :=
  length_textFrom_lt h

/-- A character that stands for itself in a string. -/
def isPlain (c : Char) : Bool := c != '"' && c != '\\' && !(c < ' ')

/-- Characters that stand for themselves are read as they are. -/
theorem textFrom_plain (halves : Halves) (before cs rest : List Char)
    (h : ∀ c ∈ cs, isPlain c = true) :
    textFrom halves before (cs ++ '"' :: rest) = .ok (before.reverse ++ cs, rest) := by
  induction cs generalizing before with
  | nil => simp [textFrom]
  | cons c cs ih =>
    have hc := h c List.mem_cons_self
    simp only [isPlain, Bool.and_eq_true, bne_iff_ne, Bool.not_eq_true', decide_eq_false_iff_not]
      at hc
    obtain ⟨⟨hquote, hback⟩, hcontrol⟩ := hc
    have hrec := ih (c :: before) fun d hd => h d (List.mem_cons_of_mem _ hd)
    rw [List.cons_append, textFrom.eq_4 halves before c (cs ++ '"' :: rest) hquote hback]
    simpa [hcontrol] using hrec

/-- A string of characters that stand for themselves is read as it is. -/
theorem text_plain {cs : List Char} (h : ∀ c ∈ cs, isPlain c = true) (rest : List Char) :
    text (cs ++ '"' :: rest) = .ok (cs, rest) := by
  simpa [text] using textFrom_plain .paired [] cs rest h

end Irq.Json
