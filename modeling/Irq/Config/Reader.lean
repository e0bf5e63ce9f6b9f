import Irq.Config
import Irq.Json.Decoding

/-!
# Irq.Config.Reader

Configurations written as JSON text. A configuration has two sections, `controller` and `latency`;
whatever is missing keeps its default. The sections and their fields are declared for any library
that decodes texts (`Json.Decoding`). A text is decoded first and judged afterwards: a field out of
its range is only reported for a text that was decoded whole.
-/

namespace Irq.Config

open Json

/-- Why a configuration could not be loaded. -/
inductive LoadError where
  /-- There is nothing to read. -/
  | missing
  /-- The bytes are no text. -/
  | notText
  /-- The text is no configuration. -/
  | unreadable (fault : Fault)
  /-- The configuration is out of range. -/
  | rejected (violation : Violation)
  deriving DecidableEq

/-! ## Fields and sections -/

section

variable (L : Decoding)

/-- The field of the number of lines. -/
def linesField : FieldDecoder L.Decoder Geometry :=
  ⟨"num_interrupts", L.natural .word, fun n g => { g with lines := n }, Defaults.lines⟩

/-- The field of the number of contexts. -/
def contextsField : FieldDecoder L.Decoder Geometry :=
  ⟨"num_contexts", L.natural .word, fun n g => { g with contexts := n }, Defaults.contexts⟩

/-- The field of the implemented bits of a priority. -/
def priorityBitsField : FieldDecoder L.Decoder Geometry :=
  ⟨"priority_bits", L.natural .byte, fun n g => { g with priorityBits := n },
    Defaults.priorityBits⟩

/-- The field of the address of the register window. -/
def baseAddressField : FieldDecoder L.Decoder Geometry :=
  ⟨"base_addr", L.natural .word, fun n g => { g with baseAddress := n }, Defaults.baseAddress⟩

/-- The fields of a geometry. -/
def geometryFields : List (FieldDecoder L.Decoder Geometry) :=
  [linesField L, contextsField L, priorityBitsField L, baseAddressField L]

/-- The field of the number of trials. -/
def trialsField : FieldDecoder L.Decoder Sampling :=
  ⟨"trials", L.natural .half, fun n p => { p with trials := n }, Defaults.trials⟩

/-- The field of the poll budget of a trial. -/
def maxPollsField : FieldDecoder L.Decoder Sampling :=
  ⟨"max_polls", L.natural .word, fun n p => { p with maxPolls := n }, Defaults.maxPolls⟩

/-- The fields of a sampling plan. -/
def samplingFields : List (FieldDecoder L.Decoder Sampling) := [trialsField L, maxPollsField L]

/-- The section of the geometry, which as a whole may be missing as well. -/
def controllerSection : FieldDecoder L.Decoder Config :=
  ⟨"controller", L.record (geometryFields L) ⟨0, 0, 0, 0⟩,
    fun g c => { c with controller := g }, Geometry.default⟩

/-- The section of the sampling plan, which as a whole may be missing as well. -/
def latencySection : FieldDecoder L.Decoder Config :=
  ⟨"latency", L.record (samplingFields L) ⟨0, 0⟩, fun p c => { c with latency := p },
    Sampling.default⟩

/-- The sections of a configuration. -/
def sections : List (FieldDecoder L.Decoder Config) := [controllerSection L, latencySection L]

/-- The decoder of configurations, of whatever values. -/
def decoder : L.Decoder Config := L.record (sections L) ⟨⟨0, 0, 0, 0⟩, ⟨0, 0⟩⟩

/-- Loads a configuration from its text. -/
def load (text : String) : Except LoadError Config :=
  match L.decode (decoder L) text with
  | .error fault => .error (.unreadable fault)
  | .ok c =>
    match c.validate with
    | .error violation => .error (.rejected violation)
    | .ok () => .ok c

end

/-! ## The defaults agree -/

variable {L : Decoding}

/-- **A section that gives no field is as good as one that is missing**: the defaults of the fields
of a geometry make up the default of the whole. -/
theorem withDefaults_geometryFields (blank : Geometry) :
    withDefaults (geometryFields L) blank = Geometry.default := rfl

/-- The defaults of the fields of a sampling plan make up the default of the whole. -/
theorem withDefaults_samplingFields (blank : Sampling) :
    withDefaults (samplingFields L) blank = Sampling.default := rfl

/-- The defaults of the sections make up the default of the configuration. -/
theorem withDefaults_sections (blank : Config) :
    withDefaults (sections L) blank = Config.default := rfl

/-- A configuration that was loaded is in range, whatever it was decoded by. -/
theorem inRange_of_load {text : String} {c : Config} (h : load L text = .ok c) : c.InRange := by
  unfold load at h
  split at h
  · simp at h
  · split at h
    · simp at h
    · next hv =>
      cases h
      exact validate_eq_ok_iff.mp hv

/-! ## Loading by the readers -/

/-- Loads a configuration from its text. -/
def ofText (text : String) : Except LoadError Config := load reading text

/-- Loads a configuration from the bytes of a file, if there is such a file. -/
def ofBytes (file : Option ByteArray) : Except LoadError Config :=
  match file with
  | none => .error .missing
  | some bytes =>
    match String.fromUTF8? bytes with
    | none => .error .notText
    | some text => ofText text

end Irq.Config
