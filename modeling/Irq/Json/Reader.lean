import Irq.Json.Skip

/-!
# Irq.Json.Reader

Readers of values of a known type. A reader takes one value from the front of a text, blanks before
it included, and always leaves a shorter text. A scalar of a wrong type is read whole before it is
refused, so that a fault inside it is found; a list or an object is refused at its bracket.
-/

namespace Irq.Json

/-- A reader of values. -/
structure Reader (α : Type) where
  /-- Reads a value from the front of a text. -/
  read : List Char → Scanned α
  /-- A value that was read leaves a shorter text. -/
  length_lt : ∀ {s a rest}, read s = .ok (a, rest) → rest.length < s.length

namespace Reader

variable {α β : Type}

/-- Changes what a reader gives. -/
def map (f : α → β) (r : Reader α) : Reader β where
  read s :=
    match r.read s with
    | .error e => .error e
    | .ok (a, rest) => .ok (f a, rest)
  length_lt h := by
    split at h
    · simp at h
    · next ha =>
      simp only [Except.ok.injEq, Prod.mk.injEq] at h
      exact h.2 ▸ r.length_lt ha

/-- A reader that was changed reads the same text and changes what it has read. -/
theorem read_map_of_ok {f : α → β} {r : Reader α} {s rest : List Char} {a : α}
    (h : r.read s = .ok (a, rest)) : (r.map f).read s = .ok (f a, rest) := by
  simp [map, h]

end Reader

/-! ## Values of a wrong type -/

/-- The fault of a number of a wrong type, and of one that a double cannot hold. -/
def refuseNumeral (n : Numeral) : Fault := if n.isHuge then .malformed else .mismatched

/-- The fault of a value of a wrong type. -/
def refuse (s : List Char) : Fault :=
  match s with
  | [] => .truncated
  | '[' :: _ | '{' :: _ => .mismatched
  | '"' :: rest =>
    match text rest with
    | .error e => e
    | .ok _ => .mismatched
  | c :: rest =>
    if startsNumeral c then
      match numeral (c :: rest) with
      | .error e => e
      | .ok (n, _) => refuseNumeral n
    else
      match skipScalar (c :: rest) with
      | .error e => e
      | .ok _ => .mismatched

/-! ## Whole numbers -/

/-- Reads a natural number that is at most `most`. -/
def readNatural (most : Nat) (s : List Char) : Scanned Nat :=
  match skipBlanks s with
  | [] => .error .truncated
  | c :: rest =>
    if startsNumeral c then
      match numeral (c :: rest) with
      | .error e => .error e
      | .ok (n, rest) =>
        match n.natural? with
        | some value => if value ≤ most then .ok (value, rest) else .error .mismatched
        | none => .error (refuseNumeral n)
    else .error (refuse (c :: rest))

/-- The reader of natural numbers that are at most `most`. -/
def natural (most : Nat) : Reader Nat where
  read := readNatural most
  length_lt {s value rest} h := by
    unfold readNatural at h
    split at h
    · simp at h
    · next hs =>
      have hle := length_skipBlanks_le s
      split at h
      · split at h
        · simp at h
        · next hn =>
          have hlt := length_numeral_lt hn
          rw [hs] at hle
          split at h
          · split at h
            · simp only [Except.ok.injEq, Prod.mk.injEq] at h
              rw [← h.2]
              omega
            · simp at h
          · simp at h
      · simp at h

/-! ## Named choices -/

/-- The choice of a name. -/
def choose {α : Type} (choices : List (String × α)) (name : List Char) : Except Fault α :=
  match choices.lookup (String.ofList name) with
  | some a => .ok a
  | none => .error .mismatched

/-- Reads the empty payload of a choice. -/
def emptyPayload (s : List Char) : Except Fault (List Char) :=
  match skipBlanks s with
  | 'n' :: rest => expect ['u', 'l', 'l'] rest
  | s => .error (refuse s)

/-- Reads the bracket that closes an object. -/
def closeObject (s : List Char) : Except Fault (List Char) :=
  match skipBlanks s with
  | [] => .error .truncated
  | '}' :: rest => .ok rest
  | _ => .error .malformed

/-- Reads the object form of a choice, whose brace has been read: its name, with no payload. -/
def readTagged {α : Type} (choices : List (String × α)) (s : List Char) :
    Except Fault (α × List Char) := do
  match skipBlanks s with
  | [] => throw .truncated
  | '"' :: rest =>
    let (name, rest) ← text rest
    let a ← choose choices name
    let rest ← colon rest
    let rest ← emptyPayload rest
    return (a, ← closeObject rest)
  | _ => throw .malformed

/-- Reads one of several named choices: its name, or an object with its name and no payload. -/
def readChoice {α : Type} (choices : List (String × α)) (s : List Char) :
    Except Fault (α × List Char) := do
  match skipBlanks s with
  | [] => throw .truncated
  | '"' :: rest =>
    let (name, rest) ← text rest
    return (← choose choices name, rest)
  | '{' :: rest => readTagged choices rest
  | _ => throw .malformed

/-! ## Whole texts -/

/-- Reads a text that holds one value and nothing else. -/
def readWhole {α : Type} (read : List Char → Scanned α) (text : String) : Except Fault α :=
  match read text.toList with
  | .error e => .error e
  | .ok (a, rest) => if (skipBlanks rest).isEmpty then .ok a else .error .malformed

end Irq.Json
