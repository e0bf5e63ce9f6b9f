import Irq.Json.Reader

/-!
# Irq.Json.Record

Records. A record is written as an object, whose fields may come in any order, or as a list, whose
items are the fields in their declared order; fields that are missing keep their defaults. A field
of an object that the record does not know is skipped; one that it knows must not come twice.
-/

namespace Irq.Json

/-- A field of a record of type `ρ`: its name, and a reader that gives what its value makes of the
record. -/
structure FieldReader (ρ : Type) where
  name : String
  reader : Reader (ρ → ρ)

/-- The field whose value sets a part of the record. -/
def FieldReader.of {ρ α : Type} (name : String) (reader : Reader α) (put : α → ρ → ρ) :
    FieldReader ρ :=
  ⟨name, reader.map put⟩

variable {ρ : Type}

/-- The field of a name. -/
def findField? (fields : List (FieldReader ρ)) (name : List Char) : Option (FieldReader ρ) :=
  fields.find? (·.name == String.ofList name)

/-! ## Records as lists -/

/-- Reads up to the next item of a list: past the comma, unless it is the first. Gives nothing if
the list ends here. -/
def nextItem (first : Bool) (s : List Char) : Except Fault (Option (List Char)) :=
  match skipBlanks s with
  | [] => .error .truncated
  | ']' :: _ => .ok none
  | c :: rest =>
    if first then .ok (some (c :: rest))
    else if c = ',' then
      match skipBlanks rest with
      | [] => .error .truncated
      | ']' :: _ => .error .malformed
      | rest => .ok (some rest)
    else .error .malformed

/-- Reads the bracket that closes a list. -/
def closeList (s : List Char) : Except Fault (List Char) :=
  match skipBlanks s with
  | [] => .error .truncated
  | ']' :: rest => .ok rest
  | _ => .error .malformed

/-- Reads the items of a list into the fields of a record. -/
def readItems (first : Bool) : List (FieldReader ρ) → ρ → List Char → Scanned ρ
  | [], r, s =>
    match closeList s with
    | .error e => .error e
    | .ok rest => .ok (r, rest)
  | field :: fields, r, s =>
    match nextItem first s with
    | .error e => .error e
    | .ok none =>
      match closeList s with
      | .error e => .error e
      | .ok rest => .ok (r, rest)
    | .ok (some s) =>
      match field.reader.read s with
      | .error e => .error e
      | .ok (put, rest) => readItems false fields (put r) rest

/-- The bracket that closes a list leaves a shorter text. -/
theorem length_closeList_lt {s rest : List Char} (h : closeList s = .ok rest) :
    rest.length < s.length := by
  unfold closeList at h
  split at h
  · simp at h
  · next hs => cases h; exact length_lt_of_skipBlanks hs
  · simp at h

/-- The way to the next item leaves no longer text. -/
theorem length_nextItem_le {first : Bool} {s s' : List Char}
    (h : nextItem first s = .ok (some s')) : s'.length ≤ s.length := by
  have hle := length_skipBlanks_le s
  unfold nextItem at h
  split at h
  · simp at h
  · simp at h
  · next c rest _ hs =>
    split at h
    · cases h
      rwa [hs] at hle
    · split at h
      · split at h
        · simp at h
        · simp at h
        · cases h
          have hle' := length_skipBlanks_le rest
          rw [hs, List.length_cons] at hle
          omega
      · simp at h

/-- The items of a list leave a shorter text, with the bracket behind them. -/
theorem length_readItems_lt {first : Bool} {fields : List (FieldReader ρ)} {r r' : ρ}
    {s rest : List Char} (h : readItems first fields r s = .ok (r', rest)) :
    rest.length < s.length := by
  induction fields generalizing first r s with
  | nil =>
    unfold readItems at h
    split at h
    · simp at h
    · next hc => cases h; exact length_closeList_lt hc
  | cons field fields ih =>
    unfold readItems at h
    split at h
    · simp at h
    · split at h
      · simp at h
      · next hc => cases h; exact length_closeList_lt hc
    · next hn =>
      have hle := length_nextItem_le hn
      split at h
      · simp at h
      · next hr =>
        have hlt := field.reader.length_lt hr
        have hrest := ih h
        omega

/-! ## Records as objects -/

/-- Reads one member of an object, whose opening quote has been read: a field that is set in the
record and added to those seen, or something that is skipped. -/
def readMember (fields : List (FieldReader ρ)) (seen : List String) (r : ρ) (s : List Char) :
    Scanned (List String × ρ) :=
  match text s with
  | .error e => .error e
  | .ok (name, rest) =>
    match findField? fields name with
    | some field =>
      if field.name ∈ seen then .error .mismatched
      else
        match colon rest with
        | .error e => .error e
        | .ok rest =>
          match field.reader.read rest with
          | .error e => .error e
          | .ok (put, rest) => .ok ((field.name :: seen, put r), rest)
    | none =>
      match colon rest with
      | .error e => .error e
      | .ok rest =>
        match skipValue rest with
        | .error e => .error e
        | .ok rest => .ok ((seen, r), rest)

/-- Reads what follows a member, and tells whether another one must come. -/
def memberEnd (s : List Char) : Scanned Bool :=
  match skipBlanks s with
  | [] => .error .truncated
  | ',' :: rest => .ok (true, rest)
  | '}' :: rest => .ok (false, rest)
  | _ => .error .malformed

/-- A member of an object leaves a shorter text. -/
theorem length_readMember_lt {fields : List (FieldReader ρ)} {seen seen' : List String} {r r' : ρ}
    {s rest : List Char} (h : readMember fields seen r s = .ok ((seen', r'), rest)) :
    rest.length < s.length := by
  unfold readMember at h
  split at h
  · simp at h
  · next ht =>
    have htext := length_text_lt ht
    split at h
    · next field _ =>
      split at h
      · simp at h
      · split at h
        · simp at h
        · next hc =>
          have hcolon := length_colon_lt hc
          split at h
          · simp at h
          · next hr =>
            have hvalue := field.reader.length_lt hr
            cases h
            omega
    · split at h
      · simp at h
      · next hc =>
        have hcolon := length_colon_lt hc
        split at h
        · simp at h
        · next hv =>
          have hvalue := length_skipValue_lt hv
          cases h
          omega

/-- What follows a member leaves a shorter text. -/
theorem length_memberEnd_lt {s rest : List Char} {more : Bool}
    (h : memberEnd s = .ok (more, rest)) : rest.length < s.length := by
  unfold memberEnd at h
  split at h
  · simp at h
  · next hs => cases h; exact length_lt_of_skipBlanks hs
  · next hs => cases h; exact length_lt_of_skipBlanks hs
  · simp at h

/-- Reads the members of an object, one of which must come, to the closing bracket. -/
def readMembers (fields : List (FieldReader ρ)) (seen : List String) (r : ρ) (s : List Char) :
    Scanned ρ :=
  match hs : skipBlanks s with
  | [] => .error .truncated
  | '"' :: rest =>
    match hm : readMember fields seen r rest with
    | .error e => .error e
    | .ok ((seen, r), rest) =>
      match he : memberEnd rest with
      | .error e => .error e
      | .ok (false, rest) => .ok (r, rest)
      | .ok (true, rest) =>
        have := length_lt_of_skipBlanks hs
        have := length_readMember_lt hm
        have := length_memberEnd_lt he
        readMembers fields seen r rest
  | _ => .error .malformed
termination_by s.length

/-- The members of an object leave a shorter text, with the bracket behind them. -/
theorem length_readMembers_lt {fields : List (FieldReader ρ)} {seen : List String} {r r' : ρ}
    {s rest : List Char} (h : readMembers fields seen r s = .ok (r', rest)) :
    rest.length < s.length := by
  fun_induction readMembers fields seen r s
  case case4 hs _ _ _ hm _ he =>
    have hopen := length_lt_of_skipBlanks hs
    have hmember := length_readMember_lt hm
    have hend := length_memberEnd_lt he
    cases h
    omega
  case case5 ih =>
    have hrest := ih h
    omega
  all_goals simp at h

/-! ## Records -/

/-- Reads a record, every field of which has a value to begin with. -/
def readRecord (fields : List (FieldReader ρ)) (r : ρ) (s : List Char) : Scanned ρ :=
  match skipBlanks s with
  | [] => .error .truncated
  | '[' :: rest => readItems true fields r rest
  | '{' :: rest =>
    match skipBlanks rest with
    | '}' :: rest => .ok (r, rest)
    | _ => readMembers fields [] r rest
  | s => .error (refuse s)

/-- The reader of a record. -/
def record (fields : List (FieldReader ρ)) (r : ρ) : Reader ρ where
  read := readRecord fields r
  length_lt {s r' rest} h := by
    unfold readRecord at h
    split at h
    · simp at h
    · next hs =>
      have hopen := length_lt_of_skipBlanks hs
      have hitems := length_readItems_lt h
      omega
    · next hs =>
      have hopen := length_lt_of_skipBlanks hs
      split at h
      · next hc =>
        have hclose := length_lt_of_skipBlanks hc
        cases h
        omega
      · have hmembers := length_readMembers_lt h
        omega
    · simp at h

end Irq.Json
