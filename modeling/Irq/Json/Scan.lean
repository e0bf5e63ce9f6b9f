/-!
# Irq.Json.Scan

The smallest steps in reading JSON text. Text is read from left to right, and the first fault met
decides; nothing after it is looked at. Each step gives what it read and the rest of the text, and
the rest is never longer than the text was.
-/

namespace Irq.Json

/-- Why a text was refused. -/
inductive Fault where
  /-- The text ends where something is still required. -/
  | truncated
  /-- The text is no JSON at this place. -/
  | malformed
  /-- The value is well-formed but not one that is wanted here. -/
  | mismatched
  deriving DecidableEq

/-- What a step read, and the rest of the text. -/
abbrev Scanned (α : Type) := Except Fault (α × List Char)

/-! ## Blanks -/

/-- The characters that may stand between tokens. -/
def isBlank (c : Char) : Bool := c == ' ' || c == '\t' || c == '\n' || c == '\r'

/-- The text behind its leading blanks. -/
def skipBlanks (s : List Char) : List Char := s.dropWhile isBlank

theorem length_dropWhile_le {α : Type} (p : α → Bool) (l : List α) :
    (l.dropWhile p).length ≤ l.length :=
  (List.dropWhile_sublist p).length_le

/-- To skip blanks leaves no longer text. -/
theorem length_skipBlanks_le (s : List Char) : (skipBlanks s).length ≤ s.length :=
  length_dropWhile_le isBlank s

/-- A character found behind blanks leaves a shorter text behind it. -/
theorem length_lt_of_skipBlanks {s rest : List Char} {c : Char}
    (h : skipBlanks s = c :: rest) : rest.length < s.length := by
  have hle := length_skipBlanks_le s
  rw [h, List.length_cons] at hle
  omega

/-- Blanks in front of anything else are skipped, and no more than they. -/
theorem skipBlanks_append {ws : List Char} (hws : ∀ c ∈ ws, isBlank c = true) (s : List Char) :
    skipBlanks (ws ++ s) = skipBlanks s := by
  induction ws with
  | nil => rfl
  | cons c ws ih =>
    have hc := hws c List.mem_cons_self
    simpa [skipBlanks, List.dropWhile_cons, hc] using
      ih fun d hd => hws d (List.mem_cons_of_mem _ hd)

/-- Nothing is skipped of a text that starts with no blank. -/
theorem skipBlanks_of_not_isBlank {c : Char} (h : isBlank c = false) (s : List Char) :
    skipBlanks (c :: s) = c :: s := by
  simp [skipBlanks, h]

/-! ## Words -/

/-- Reads the characters of a word, each in its turn. -/
def expect : List Char → List Char → Except Fault (List Char)
  | [], s => .ok s
  | _ :: _, [] => .error .truncated
  | w :: word, c :: s => if c = w then expect word s else .error .malformed

/-- **A word is read exactly where it stands.** -/
theorem eq_append_of_expect {word s rest : List Char} (h : expect word s = .ok rest) :
    s = word ++ rest := by
  induction word generalizing s with
  | nil => cases h; rfl
  | cons w word ih =>
    cases s with
    | nil => cases h
    | cons c s =>
      unfold expect at h
      split at h
      · next hc => rw [hc, ih h, List.cons_append]
      · cases h

/-- A word that was read leaves no longer text. -/
theorem length_expect_le {word s rest : List Char} (h : expect word s = .ok rest) :
    rest.length ≤ s.length := by
  rw [eq_append_of_expect h, List.length_append]
  omega

/-- Reads the colon between a name and its value. -/
def colon (s : List Char) : Except Fault (List Char) :=
  match skipBlanks s with
  | [] => .error .truncated
  | ':' :: rest => .ok rest
  | _ => .error .malformed

/-- A colon leaves a shorter text. -/
theorem length_colon_lt {s rest : List Char} (h : colon s = .ok rest) :
    rest.length < s.length := by
  unfold colon at h
  split at h
  · cases h
  · next hs => cases h; exact length_lt_of_skipBlanks hs
  · cases h

end Irq.Json
