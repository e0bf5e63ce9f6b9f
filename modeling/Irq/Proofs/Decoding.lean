import Mathlib.Data.List.Nodup
import Mathlib.Tactic.Choose
import Irq.Json.Decoding
import Irq.Proofs.ObjectText

/-!
# Irq.Proofs.Decoding

What a library that decodes texts is relied on for. `Means` says which texts mean a value to a
declared decoder: decimal digits mean their number, and an object means the record with its members
in their fields and defaults in the others. A library is `Standard` if it decodes every such text to
what it means. Of the order of the members this says nothing; that it does not matter is
`means_inAnyOrder`. The readers of values are an instance (`standard_reading`).
-/

namespace Irq.Json

/-! ## What a text means -/

section

variable {D : Type → Type} {ρ : Type}

/-- The fields have different names, none of which holds a character that has to be escaped. -/
structure WellNamed (fields : List (FieldDecoder D ρ)) : Prop where
  nodup : (fields.map fun field => field.name).Nodup
  plain : ∀ field ∈ fields, field.name.toList.all isPlain = true

/-- A value that is given for a field, and the texts that it may be written as. -/
structure Entry (D : Type → Type) (ρ : Type) where
  field : FieldDecoder D ρ
  form : Form
  value : field.Value

/-- The member that gives the value. -/
def Entry.member (entry : Entry D ρ) : Member := ⟨entry.field.name, entry.form⟩

/-- The record with the value in its field. -/
def Entry.set (entry : Entry D ρ) (r : ρ) : ρ := entry.field.put entry.value r

end

/-- The text means the value to the decoder, by the standard. An object may have a member for any of
the fields, but for none more than once; the number is a bound on how deep objects are nested. -/
inductive Means (L : Decoding) : Nat → {α : Type} → L.Decoder α → List Char → α → Prop where
  | natural {depth n : Nat} {width : Width} (hn : n ≤ width.most) :
      Means L depth (L.natural width) (Nat.toDigits 10 n) n
  | record {depth : Nat} {ρ : Type} {fields : List (FieldDecoder L.Decoder ρ)} {blank : ρ}
      {entries : List (Entry L.Decoder ρ)} {s : List Char} (hfields : WellNamed fields)
      (hknown : ∀ entry ∈ entries, entry.field ∈ fields)
      (honce : (entries.map fun entry => entry.field.name).Nodup)
      (hvalues : ∀ entry ∈ entries, ∀ t, entry.form t →
        Means L depth entry.field.decoder t entry.value)
      (hs : ObjectText (entries.map Entry.member) s) :
      Means L (depth + 1) (L.record fields blank) s
        (entries.foldl (fun r entry => entry.set r) (withDefaults fields blank))

/-- How deep objects may be nested in a text that is decoded. -/
def mostNested : Nat := 127

/-- **Standard decoding**: every text is decoded to what it means, whatever blanks stand around. -/
def Decoding.Standard (L : Decoding) : Prop :=
  ∀ ⦃α : Type⦄ (decoder : L.Decoder α) (a : α) (text : String),
    Whole (fun s => Means L mostNested decoder s a) text → L.decode decoder text = .ok a

/-! ## The order of the members -/

section

variable {L : Decoding} {depth : Nat} {ρ σ : Type} {fields : List (FieldDecoder L.Decoder ρ)}

/-- The member gives a field of the record a value, which changes the record as it is said. -/
def Gives (L : Decoding) (depth : Nat) (fields : List (FieldDecoder L.Decoder ρ)) (m : Member)
    (put : ρ → ρ) : Prop :=
  ∃ entry : Entry L.Decoder ρ, entry.field ∈ fields ∧ entry.member = m ∧ entry.set = put ∧
    ∀ t, entry.form t → Means L depth entry.field.decoder t entry.value

/-- A number of the width of a field is a value for it. -/
theorem gives_decimal {name : String} {width : Width} {put : Nat → ρ → ρ} {default n : Nat}
    (hfield : ⟨name, L.natural width, put, default⟩ ∈ fields) (hn : n ≤ width.most) :
    Gives L depth fields ⟨name, decimal n⟩ (put n) :=
  ⟨⟨_, decimal n, n⟩, hfield, rfl, rfl, fun _ ht => ht ▸ .natural hn⟩

/-- **The order of the members does not matter** if values of different fields do not interfere: an
object in any order means the record with the values set in the order of the settings. -/
theorem means_inAnyOrder {member : σ → Member} {put : σ → ρ → ρ} (hfields : WellNamed fields)
    (hgives : ∀ x, Gives L depth fields (member x) (put x))
    (hcomm : ∀ x y r, (member x).name ≠ (member y).name → put x (put y r) = put y (put x r))
    {settings : List σ} (honce : (settings.map fun x => (member x).name).Nodup) (blank : ρ)
    {s : List Char} (hs : inAnyOrder member settings s) :
    Means L (depth + 1) (L.record fields blank) s
      (settings.foldl (fun r x => put x r) (withDefaults fields blank)) := by
  choose entry hknown hmember hset hvalues using hgives
  obtain ⟨order, horder, hs⟩ := hs
  have hsame (r : ρ) : order.foldl (fun r x => put x r) r =
      settings.foldl (fun r x => put x r) r := by
    refine horder.foldl_eq' (fun x hx y hy r => ?_) r
    by_cases hname : (member x).name = (member y).name
    · rw [List.inj_on_of_nodup_map honce (horder.mem_iff.mp hx) (horder.mem_iff.mp hy) hname]
    · exact (hcomm x y r hname).symm
  have hmembers : (order.map entry).map Entry.member = order.map member := by
    simp only [List.map_map, Function.comp_def, hmember]
  have hnames : (order.map entry).map (fun e => e.field.name) =
      order.map fun x => (member x).name := by
    simp only [List.map_map, Function.comp_def, ← hmember, Entry.member]
  have hfold : (order.map entry).foldl (fun r e => e.set r) (withDefaults fields blank) =
      settings.foldl (fun r x => put x r) (withDefaults fields blank) := by
    simp only [List.foldl_map, hset, hsame]
  rw [← hfold]
  refine .record hfields ?_ ?_ ?_ ?_
  · intro e he
    obtain ⟨x, -, rfl⟩ := List.mem_map.mp he
    exact hknown x
  · rw [hnames]
    exact (horder.map _).nodup_iff.mpr honce
  · intro e he
    obtain ⟨x, -, rfl⟩ := List.mem_map.mp he
    exact hvalues x
  · rwa [hmembers]

end

/-! ## The readers of values -/

/-- A field is found under its name. -/
theorem find?_map_toReader {ρ : Type} {fields : List (FieldDecoder Reader ρ)}
    (hfields : WellNamed fields) {field : FieldDecoder Reader ρ} (hfield : field ∈ fields) :
    (fields.map FieldDecoder.toReader).find? (·.name == field.name) = some field.toReader := by
  have hfind : fields.find? (·.name == field.name) = some field := by
    cases hf : fields.find? (·.name == field.name) with
    | none => simpa using List.find?_eq_none.mp hf field hfield
    | some other =>
      have hname : other.name = field.name := by simpa using List.find?_some hf
      rw [List.inj_on_of_nodup_map hfields.nodup (List.mem_of_find?_eq_some hf) hfield hname]
  have hcomp : ((fun reader : FieldReader ρ => reader.name == field.name) ∘
      FieldDecoder.toReader) = fun other => other.name == field.name := rfl
  rw [List.find?_map, hcomp, hfind]
  rfl

/-- **The readers take every text for what it means.** -/
theorem takes_of_means {depth : Nat} {α : Type} {reader : reading.Decoder α} {s : List Char}
    {a : α} (h : Means reading depth reader s a) : Reader.Takes reader (· = s) a := by
  induction h with
  | @natural depth n width hn => exact takes_natural hn width.most_le
  | @record depth ρ fields blank entries s hfields hknown honce _ hs ih =>
    have hsets : List.Forall₂ (Sets (fields.map FieldDecoder.toReader))
        (entries.map Entry.member) (entries.map Entry.set) := by
      rw [List.forall₂_map_left_iff, List.forall₂_map_right_iff, List.forall₂_same]
      intro entry hentry
      have hfield := hknown entry hentry
      have htakes : Reader.Takes entry.field.decoder entry.form entry.value :=
        fun _ t _ hws ht hrest => ih entry hentry t ht hws rfl hrest
      have hplain := List.all_eq_true.mp (hfields.plain _ hfield)
      exact .of_takes hplain (find?_map_toReader hfields hfield) htakes rfl
    have hnames : ((entries.map Entry.member).map Member.name).Nodup := by
      rw [List.map_map]
      exact honce
    rw [← List.foldl_map (f := Entry.set) (g := fun r put => put r)]
    have htakes := takes_objectText hsets hnames (withDefaults fields blank)
    intro ws t rest hws ht hrest
    exact htakes hws (ht ▸ hs) hrest

/-- **Decoding by the readers of values is standard.** -/
theorem standard_reading : reading.Standard := by
  intro α reader a text htext
  have htakes : Reader.Takes reader (fun s => Means reading mostNested reader s a) a :=
    fun _ s _ hws hs hrest => takes_of_means hs hws rfl hrest
  exact htakes.readWhole htext

end Irq.Json
