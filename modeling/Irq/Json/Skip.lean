import Irq.Json.Numeral
import Irq.Json.Text

/-!
# Irq.Json.Skip

Values that nobody asked for. Such a value must be well-formed, but it is not looked at otherwise:
it may be nested to any depth, its numbers may have any size, and escaped halves of characters may
stand alone. Lists and objects that are open are kept as frames.
-/

namespace Irq.Json

/-- A list or an object that has been opened. -/
inductive Frame where
  | list
  | object
  deriving DecidableEq

/-- What is read next. -/
inductive Place where
  /-- A value. -/
  | value
  /-- What follows a value. -/
  | afterValue

/-- Skips a string whose opening quote has been read. -/
def skipText (s : List Char) : Except Fault (List Char) :=
  match textFrom .any [] s with
  | .error e => .error e
  | .ok (_, rest) => .ok rest

/-- Skips a number. Here a number that is cut off by the end of the text is malformed. -/
def skipNumeral (s : List Char) : Except Fault (List Char) :=
  match numeral s with
  | .error _ => .error .malformed
  | .ok (_, rest) => .ok rest

/-- Skips a value that is neither list nor object. -/
def skipScalar (s : List Char) : Except Fault (List Char) :=
  match s with
  | [] => .error .truncated
  | 'n' :: rest => expect ['u', 'l', 'l'] rest
  | 't' :: rest => expect ['r', 'u', 'e'] rest
  | 'f' :: rest => expect ['a', 'l', 's', 'e'] rest
  | '"' :: rest => skipText rest
  | c :: rest => if startsNumeral c then skipNumeral (c :: rest) else .error .malformed

/-- Skips a name in an object, and the colon behind it. -/
def skipName (s : List Char) : Except Fault (List Char) :=
  match skipBlanks s with
  | [] => .error .truncated
  | '"' :: rest =>
    match skipText rest with
    | .error e => .error e
    | .ok rest => colon rest
  | _ => .error .malformed

/-- Skips to what a frame wants behind an opening bracket or a comma: the next value. -/
def skipToValue (frame : Frame) (s : List Char) : Except Fault (List Char) :=
  match frame with
  | .list => .ok s
  | .object => skipName s

/-- The bracket that closes a frame. -/
def Frame.close : Frame → Char
  | list => ']'
  | object => '}'

/-- The frame that a bracket opens. -/
def Frame.opened? (c : Char) : Option Frame :=
  if c = '[' then some .list else if c = '{' then some .object else none

/-- A string that was skipped leaves a shorter text. -/
theorem length_skipText_lt {s rest : List Char} (h : skipText s = .ok rest) :
    rest.length < s.length := by
  unfold skipText at h
  split at h
  · simp at h
  · next ht => cases h; exact length_textFrom_lt ht

/-- A scalar that was skipped leaves a shorter text. -/
theorem length_skipScalar_lt {s rest : List Char} (h : skipScalar s = .ok rest) :
    rest.length < s.length := by
  unfold skipScalar at h
  split at h
  · simp at h
  · exact Nat.lt_succ_of_le (length_expect_le h)
  · exact Nat.lt_succ_of_le (length_expect_le h)
  · exact Nat.lt_succ_of_le (length_expect_le h)
  · exact Nat.lt_succ_of_lt (length_skipText_lt h)
  · split at h
    · unfold skipNumeral at h
      split at h
      · simp at h
      · next hn => cases h; exact length_numeral_lt hn
    · simp at h

/-- The way to the next value leaves no longer text. -/
theorem length_skipToValue_le {frame : Frame} {s rest : List Char}
    (h : skipToValue frame s = .ok rest) : rest.length ≤ s.length := by
  unfold skipToValue at h
  split at h
  · cases h; exact Nat.le_refl _
  · unfold skipName at h
    split at h
    · simp at h
    · next hs =>
      have hlt := length_lt_of_skipBlanks hs
      split at h
      · simp at h
      · next ht =>
        have hlt' := length_skipText_lt ht
        have hlt'' := length_colon_lt h
        omega
    · simp at h

/-- Skips on from a place inside the given frames, until all of them are closed. -/
def skipFrom (place : Place) (frames : List Frame) (s : List Char) : Except Fault (List Char) :=
  match place, frames with
  | .afterValue, [] => .ok s
  | .afterValue, frame :: outer =>
    match hs : skipBlanks s with
    | [] => .error .truncated
    | c :: rest =>
      have := length_lt_of_skipBlanks hs
      if c = frame.close then skipFrom .afterValue outer rest
      else if c = ',' then
        match hv : skipToValue frame rest with
        | .error e => .error e
        | .ok rest' =>
          have := length_skipToValue_le hv
          skipFrom .value (frame :: outer) rest'
      else .error .malformed
  | .value, frames =>
    match hs : skipBlanks s with
    | [] => .error .truncated
    | c :: rest =>
      have := length_lt_of_skipBlanks hs
      match Frame.opened? c with
      | some frame =>
        match hs' : skipBlanks rest with
        | [] => .error .truncated
        | c' :: rest' =>
          have := length_lt_of_skipBlanks hs'
          if c' = frame.close then skipFrom .afterValue frames rest'
          else
            match hv : skipToValue frame rest with
            | .error e => .error e
            | .ok rest'' =>
              have := length_skipToValue_le hv
              skipFrom .value (frame :: frames) rest''
      | none =>
        match hv : skipScalar (c :: rest) with
        | .error e => .error e
        | .ok rest' =>
          have := length_skipScalar_lt hv
          have : rest'.length < s.length := by
            have hle := length_skipBlanks_le s
            rw [hs] at hle
            omega
          skipFrom .afterValue frames rest'
termination_by s.length

/-- **Skipping never leaves a longer text**, and skipping a value leaves a shorter one. -/
theorem length_skipFrom {place : Place} {frames : List Frame} {s rest : List Char}
    (h : skipFrom place frames s = .ok rest) :
    rest.length ≤ s.length ∧ (place = .value → rest.length < s.length) := by
  fun_induction skipFrom place frames s
  case case1 => cases h; simp
  case case3 ih | case5 ih | case9 ih | case11 ih | case13 ih =>
    have hle := (ih h).1
    simp only [reduceCtorEq, false_implies, and_true, forall_const]
    omega
  all_goals cases h

/-- Skips a value. -/
def skipValue (s : List Char) : Except Fault (List Char) := skipFrom .value [] s

/-- A value that was skipped leaves a shorter text. -/
theorem length_skipValue_lt {s rest : List Char} (h : skipValue s = .ok rest) :
    rest.length < s.length :=
  (length_skipFrom h).2 rfl

end Irq.Json
