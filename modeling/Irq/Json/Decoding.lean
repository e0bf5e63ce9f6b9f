import Irq.Json.Record

/-!
# Irq.Json.Decoding

Decoding as a library offers it. What is to be decoded is declared once, for any library: unsigned
integers of a width, and records, each field of which has a name, a decoder for its value and a
default. `Decoding` is what a library gives for that; `reading` is the one that is made of the
readers of values.
-/

namespace Irq.Json

/-- The widths of unsigned integers. -/
inductive Width where
  | byte
  | half
  | word
  deriving DecidableEq

/-- The largest number of a width. -/
def Width.most : Width → Nat
  | byte => 0xFF
  | half => 0xFFFFFFFF
  | word => wordMax

/-- No width is beyond a word. -/
theorem Width.most_le (width : Width) : width.most ≤ wordMax := by
  cases width <;> decide

/-- A field of a record of type `ρ` as it is declared. -/
structure FieldDecoder (Decoder : Type → Type) (ρ : Type) where
  name : String
  {Value : Type}
  /-- Decodes the value of the field. -/
  decoder : Decoder Value
  /-- The record with the value in the field. -/
  put : Value → ρ → ρ
  /-- The value of the field where none is given. -/
  default : Value

/-- The record with every field at its default. -/
def withDefaults {Decoder : Type → Type} {ρ : Type} (fields : List (FieldDecoder Decoder ρ))
    (blank : ρ) : ρ :=
  fields.foldl (fun r field => field.put field.default r) blank

/-- What a library gives for the decoding of texts. -/
structure Decoding where
  /-- The decoders of the values of a type. -/
  Decoder : Type → Type
  /-- The decoder of the numbers of a width. -/
  natural (width : Width) : Decoder Nat
  /-- The decoder of a record with the given fields, which are filled into a blank one. -/
  record {ρ : Type} (fields : List (FieldDecoder Decoder ρ)) (blank : ρ) : Decoder ρ
  /-- Decodes a text that holds one value and nothing else. -/
  decode {α : Type} (decoder : Decoder α) (text : String) : Except Fault α

/-- The reader of a declared field. -/
def FieldDecoder.toReader {ρ : Type} (field : FieldDecoder Reader ρ) : FieldReader ρ :=
  .of field.name field.decoder field.put

/-- Decoding by the readers of values. -/
def reading : Decoding where
  Decoder := Reader
  natural width := natural width.most
  record fields blank := record (fields.map FieldDecoder.toReader) (withDefaults fields blank)
  decode reader text := readWhole reader.read text

end Irq.Json
