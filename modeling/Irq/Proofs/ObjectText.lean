import Mathlib.Data.List.Forall2
import Irq.Json.Natural
import Irq.Json.Record

/-!
# Irq.Proofs.ObjectText

Objects as they may be written, and the records that are read from them. A value has many texts:
blanks may stand around every token, and the members of an object may come in any order. The main
statement is `takes_objectText`: the reader of a record takes every text of an object whose members
set different fields, and makes of the record what the members say.
-/

namespace Irq.Json

/-! ## Texts of a value -/

/-- The texts that a value may be written as. -/
abbrev Form := List Char → Prop

/-- Spaces, tabs and ends of lines, and nothing else. -/
def AllBlank (ws : List Char) : Prop := ∀ c ∈ ws, c ∈ [' ', '\t', '\n', '\r']

instance (ws : List Char) : Decidable (AllBlank ws) := List.decidableBAll _ ws

/-- The text of a number, in decimal digits. -/
def decimal (n : Nat) : Form := fun s => s = Nat.toDigits 10 n

/-- A member of an object: its name, and the texts of its value. -/
structure Member where
  name : String
  value : Form

/-- The texts of a member, with blanks before each token and behind the last. -/
inductive MemberText (m : Member) : Form where
  | spaced {ws₁ ws₂ ws₃ ws₄ v : List Char} (h₁ : AllBlank ws₁) (h₂ : AllBlank ws₂)
      (h₃ : AllBlank ws₃) (h₄ : AllBlank ws₄) (hv : m.value v) :
      MemberText m
        (ws₁ ++ '"' :: (m.name.toList ++ '"' :: (ws₂ ++ ':' :: (ws₃ ++ v ++ ws₄))))

/-- The texts of one or more members, with commas between them. -/
inductive MembersText : List Member → Form where
  | last {m : Member} {s : List Char} (hm : MemberText m s) : MembersText [m] s
  | more {m : Member} {ms : List Member} {s t : List Char} (hm : MemberText m s)
      (hms : MembersText ms t) : MembersText (m :: ms) (s ++ ',' :: t)

/-- The texts of an object with the given members, in their order. -/
inductive ObjectText : List Member → Form where
  | empty {ws : List Char} (hws : AllBlank ws) : ObjectText [] ('{' :: (ws ++ ['}']))
  | members {ms : List Member} {s : List Char} (hms : MembersText ms s) :
      ObjectText ms ('{' :: (s ++ ['}']))

/-- The texts of an object that has a member for each of the settings, in any order. -/
def inAnyOrder {σ : Type} (member : σ → Member) (settings : List σ) : Form :=
  fun s => ∃ order : List σ, order.Perm settings ∧ ObjectText (order.map member) s

/-- The whole text is of the form, with blanks around it. -/
def Whole (form : Form) (text : String) : Prop :=
  ∃ ws s ws', AllBlank ws ∧ form s ∧ AllBlank ws' ∧ text.toList = ws ++ s ++ ws'

/-! ## Readers that take them -/

/-- The reader takes every text of the form for the value, behind any blanks and up to any text
that does not go on with a number. -/
def Reader.Takes {α : Type} (r : Reader α) (form : Form) (a : α) : Prop :=
  ∀ ⦃ws s rest : List Char⦄, AllBlank ws → form s → EndsNumeral rest →
    r.read (ws ++ s ++ rest) = .ok (a, rest)

/-- These are the characters that are skipped between tokens. -/
theorem AllBlank.isBlank {ws : List Char} (hws : AllBlank ws) :
    ∀ c ∈ ws, Json.isBlank c = true := by
  intro c hc
  have hblank := hws c hc
  simp only [List.mem_cons, List.not_mem_nil, or_false] at hblank
  rcases hblank with rfl | rfl | rfl | rfl <;> rfl

/-- The reader of numbers takes the digits of every number that is not above the most. -/
theorem takes_natural {n most : Nat} (hn : n ≤ most) (hmost : most ≤ wordMax) :
    (natural most).Takes (decimal n) n := by
  intro ws s rest hws hs hrest
  cases hs
  exact read_natural_toDigits hn hmost hws.isBlank hrest

theorem Reader.Takes.map {α β : Type} {r : Reader α} {form : Form} {a : α} (h : r.Takes form a)
    (f : α → β) : (r.map f).Takes form (f a) :=
  fun _ _ _ hws hs hrest => read_map_of_ok (h hws hs hrest)

/-- Blanks do not go on with a number. -/
theorem endsNumeral_append {ws s : List Char} (hws : AllBlank ws) (hs : EndsNumeral s) :
    EndsNumeral (ws ++ s) := by
  cases ws with
  | nil => exact hs
  | cons c ws => exact endsNumeral_of_isBlank (hws.isBlank c List.mem_cons_self) (ws ++ s)

/-- Behind blanks stands the first character that is none. -/
theorem skipBlanks_append_cons {ws : List Char} {c : Char} (hws : AllBlank ws)
    (hc : isBlank c = false) (s : List Char) : skipBlanks (ws ++ c :: s) = c :: s := by
  rw [skipBlanks_append hws.isBlank, skipBlanks_of_not_isBlank hc]

/-- **A whole text of a form that a reader takes is read.** -/
theorem Reader.Takes.readWhole {α : Type} {r : Reader α} {form : Form} {a : α}
    (h : r.Takes form a) {text : String} (htext : Whole form text) :
    Json.readWhole r.read text = .ok a := by
  obtain ⟨ws, s, ws', hws, hs, hws', heq⟩ := htext
  have hread := h hws hs (endsNumeral_append hws' endsNumeral_nil)
  have hend : skipBlanks ws' = [] := by
    have hskip := skipBlanks_append hws'.isBlank []
    rwa [List.append_nil] at hskip
  rw [List.append_nil, ← heq] at hread
  simp [Json.readWhole, hread, hend]

/-! ## One member -/

variable {ρ : Type} {fields : List (FieldReader ρ)} {m : Member} {put : ρ → ρ}

/-- The member sets a field of the record: it has the name of a field, written without escapes, and
the reader of that field takes its value for the change. -/
structure Sets (fields : List (FieldReader ρ)) (m : Member) (put : ρ → ρ) : Prop where
  plain : ∀ c ∈ m.name.toList, isPlain c = true
  known : ∃ field, findField? fields m.name.toList = some field ∧ field.reader.Takes m.value put

/-- A member that has the name of a field sets it, if the reader of the field takes its value. -/
theorem Sets.of_takes {α : Type} {reader : Reader α} {set : α → ρ → ρ} {a : α}
    (hplain : ∀ c ∈ m.name.toList, isPlain c = true)
    (hfind : fields.find? (·.name == m.name) = some (.of m.name reader set))
    (htakes : reader.Takes m.value a) (hput : set a = put) : Sets fields m put where
  plain := hplain
  known := by
    refine ⟨.of m.name reader set, ?_, hput ▸ htakes.map set⟩
    rw [findField?, String.ofList_toList, hfind]

/-- The field that is found under a name has this name. -/
theorem name_of_findField? {name : String} {field : FieldReader ρ}
    (h : findField? fields name.toList = some field) : field.name = name := by
  simpa using List.find?_some h

/-- A member whose name is that of a field not seen before sets the field. -/
theorem readMember_of_known {name s t u rest : List Char} {field : FieldReader ρ}
    {seen : List String} (htext : text s = .ok (name, t))
    (hfind : findField? fields name = some field) (hseen : field.name ∉ seen)
    (hcolon : colon t = .ok u) (hvalue : field.reader.read u = .ok (put, rest)) (r : ρ) :
    readMember fields seen r s = .ok ((field.name :: seen, put r), rest) := by
  simp [readMember, htext, hfind, hseen, hcolon, hvalue]

/-- **A member is read in front of any text that does not go on with its value**, and the blanks
behind it are left. -/
theorem Sets.readMember (hm : Sets fields m put) {s : List Char} (hs : MemberText m s)
    {seen : List String} (hseen : m.name ∉ seen) (r : ρ) {rest : List Char}
    (hrest : EndsNumeral rest) :
    ∃ t ws, skipBlanks (s ++ rest) = '"' :: t ∧ AllBlank ws ∧
      Json.readMember fields seen r t = .ok ((m.name :: seen, put r), ws ++ rest) := by
  obtain ⟨field, hfind, htakes⟩ := hm.known
  have hname : field.name = m.name := name_of_findField? hfind
  cases hs with
  | @spaced ws₁ ws₂ ws₃ ws₄ v h₁ h₂ h₃ h₄ hv =>
    have hcolon : colon (ws₂ ++ ':' :: (ws₃ ++ v ++ (ws₄ ++ rest))) =
        .ok (ws₃ ++ v ++ (ws₄ ++ rest)) := by
      simp [colon, skipBlanks_append_cons h₂ (show isBlank ':' = false from rfl)]
    have hvalue := htakes h₃ hv (endsNumeral_append h₄ hrest)
    refine ⟨m.name.toList ++ '"' :: (ws₂ ++ ':' :: (ws₃ ++ v ++ (ws₄ ++ rest))), ws₄, ?_, h₄, ?_⟩
    · simp [skipBlanks_append_cons h₁ (show isBlank '"' = false from rfl)]
    · rw [readMember_of_known (text_plain hm.plain _) hfind (hname ▸ hseen) hcolon hvalue, hname]

/-! ## All members -/

/-- Behind a comma another member must come. -/
theorem memberEnd_comma {ws : List Char} (hws : AllBlank ws) (s : List Char) :
    memberEnd (ws ++ ',' :: s) = .ok (true, s) := by
  simp [memberEnd, skipBlanks_append_cons hws (show isBlank ',' = false from rfl)]

/-- Behind the closing bracket no member comes. -/
theorem memberEnd_close {ws : List Char} (hws : AllBlank ws) (s : List Char) :
    memberEnd (ws ++ '}' :: s) = .ok (false, s) := by
  simp [memberEnd, skipBlanks_append_cons hws (show isBlank '}' = false from rfl)]

/-- After a member that was read, what follows it decides. -/
theorem readMembers_of_member {seen seen' : List String} {r r' : ρ} {s t u : List Char}
    (hs : skipBlanks s = '"' :: t) (hm : readMember fields seen r t = .ok ((seen', r'), u)) :
    readMembers fields seen r s =
      match memberEnd u with
      | .error e => .error e
      | .ok (false, rest) => .ok (r', rest)
      | .ok (true, rest) => readMembers fields seen' r' rest := by
  rw [readMembers]
  split
  · next hnil => simp [hs] at hnil
  · next hquote =>
    cases hs.symm.trans hquote
    split
    · next herror => simp [hm] at herror
    · next hread =>
      cases hm.symm.trans hread
      split <;> next hend => simp [hend]
  · next hquote => exact absurd hs (hquote t)

/-- **The members of an object are read one after the other**, if no two have the same name. -/
theorem readMembers_membersText {ms : List Member} {s : List Char} (hs : MembersText ms s)
    {puts : List (ρ → ρ)} (hsets : List.Forall₂ (Sets fields) ms puts)
    (hnodup : (ms.map Member.name).Nodup) {seen : List String}
    (hseen : ∀ m ∈ ms, m.name ∉ seen) (r : ρ) (rest : List Char) :
    readMembers fields seen r (s ++ '}' :: rest) =
      .ok (puts.foldl (fun r put => put r) r, rest) := by
  induction hs generalizing puts seen r with
  | @last m s hm =>
    cases hsets with
    | cons hset hnil =>
      cases hnil
      have hend : EndsNumeral ('}' :: rest) := endsNumeral_cons (by decide) rest
      obtain ⟨t, ws, hopen, hws, hread⟩ :=
        hset.readMember hm (hseen m List.mem_cons_self) r hend
      rw [readMembers_of_member hopen hread, memberEnd_close hws]
      rfl
  | @more m ms s s' hm _ ih =>
    cases hsets with
    | @cons _ put _ puts hset hsets =>
      rw [List.map_cons, List.nodup_cons] at hnodup
      have hend : EndsNumeral (',' :: (s' ++ '}' :: rest)) := endsNumeral_cons (by decide) _
      obtain ⟨t, ws, hopen, hws, hread⟩ :=
        hset.readMember hm (hseen m List.mem_cons_self) r hend
      have hunseen : ∀ m' ∈ ms, m'.name ∉ m.name :: seen := by
        intro m' hm'
        rw [List.mem_cons, not_or]
        refine ⟨fun hname => hnodup.1 ?_, hseen m' (List.mem_cons_of_mem _ hm')⟩
        exact hname ▸ List.mem_map_of_mem hm'
      rw [List.append_assoc, List.cons_append, readMembers_of_member hopen hread,
        memberEnd_comma hws]
      exact ih hsets hnodup.2 hunseen (put r)

/-! ## Records -/

/-- A member starts with a quote, behind any blanks. -/
theorem skipBlanks_memberText {s : List Char} (hs : MemberText m s) (rest : List Char) :
    ∃ t, skipBlanks (s ++ rest) = '"' :: t := by
  cases hs with
  | spaced h₁ =>
    rw [List.append_assoc, List.cons_append,
      skipBlanks_append_cons h₁ (show isBlank '"' = false from rfl)]
    exact ⟨_, rfl⟩

/-- Members start with a quote, behind any blanks. -/
theorem skipBlanks_membersText {ms : List Member} {s : List Char} (hs : MembersText ms s)
    (rest : List Char) : ∃ t, skipBlanks (s ++ rest) = '"' :: t := by
  cases hs with
  | last hm => exact skipBlanks_memberText hm rest
  | more hm =>
    rw [List.append_assoc]
    exact skipBlanks_memberText hm _

/-- An object starts with its brace, behind any blanks. -/
theorem skipBlanks_brace {ws : List Char} (hws : AllBlank ws) (s rest : List Char) :
    skipBlanks (ws ++ '{' :: (s ++ ['}']) ++ rest) = '{' :: (s ++ '}' :: rest) := by
  simp [skipBlanks_append_cons hws (show isBlank '{' = false from rfl)]

/-- **The reader of a record takes an object**, and makes of the record what its members say. -/
theorem takes_objectText {ms : List Member} {puts : List (ρ → ρ)}
    (hsets : List.Forall₂ (Sets fields) ms puts) (hnodup : (ms.map Member.name).Nodup) (r : ρ) :
    (record fields r).Takes (ObjectText ms) (puts.foldl (fun r put => put r) r) := by
  intro ws s rest hws hs hrest
  show readRecord fields r _ = _
  unfold readRecord
  cases hs with
  | @empty ws' hws' =>
    cases hsets
    rw [skipBlanks_brace hws]
    simp [skipBlanks_append_cons hws' (show isBlank '}' = false from rfl)]
  | @members _ s hms =>
    obtain ⟨t, hquote⟩ := skipBlanks_membersText hms ('}' :: rest)
    rw [skipBlanks_brace hws]
    simpa [hquote] using readMembers_membersText hms hsets hnodup (by simp) r rest

end Irq.Json
