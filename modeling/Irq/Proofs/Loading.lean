import Irq.Config.Reader
import Irq.Proofs.Decoding

/-!
# Irq.Proofs.Loading

Loading a configuration from its text. A text gives some of the fields, in sections that may be
missing as well, in any order and with any blanks; `Config.Given` says what is given, and
`Config.Given.Writes` which texts give it. Every such text is decoded by a library that decodes as
the standard says (`decode_of_writes`), and what it leaves open keeps its default. Whether the
configuration is then accepted depends on five fields, each with its range, and the first that is
out of its range is the one that is reported (`validate_eq_error_iff`).
-/

namespace Irq

open Json

/-! ## What a text gives -/

namespace Geometry

/-- A value given for a field. -/
inductive Setting where
  | lines (n : UInt64)
  | contexts (n : UInt64)
  | priorityBits (n : UInt8)
  | baseAddress (n : UInt64)

namespace Setting

/-- The member that gives the value. -/
def member : Setting → Member
  | lines n => ⟨"num_interrupts", decimal n.toNat⟩
  | contexts n => ⟨"num_contexts", decimal n.toNat⟩
  | priorityBits n => ⟨"priority_bits", decimal n.toNat⟩
  | baseAddress n => ⟨"base_addr", decimal n.toNat⟩

/-- The geometry with the value in its field. -/
def put : Setting → Geometry → Geometry
  | lines n, g => { g with lines := n.toNat }
  | contexts n, g => { g with contexts := n.toNat }
  | priorityBits n, g => { g with priorityBits := n.toNat }
  | baseAddress n, g => { g with baseAddress := n.toNat }

end Setting

/-- The fields that are given, each with a value of its own type. -/
structure Given where
  lines : Option UInt64 := none
  contexts : Option UInt64 := none
  priorityBits : Option UInt8 := none
  baseAddress : Option UInt64 := none

namespace Given

/-- The values given. -/
def settings (given : Given) : List Setting :=
  (given.lines.map Setting.lines).toList ++ (given.contexts.map Setting.contexts).toList ++
    (given.priorityBits.map Setting.priorityBits).toList ++
    (given.baseAddress.map Setting.baseAddress).toList

/-- The geometry with the fields that are given, and those of another for the rest. -/
def filledFrom (given : Given) (fallback : Geometry) : Geometry where
  lines := given.lines.elim fallback.lines UInt64.toNat
  contexts := given.contexts.elim fallback.contexts UInt64.toNat
  priorityBits := given.priorityBits.elim fallback.priorityBits UInt8.toNat
  baseAddress := given.baseAddress.elim fallback.baseAddress UInt64.toNat

end Given

end Geometry

namespace Sampling

/-- A value given for a field. -/
inductive Setting where
  | trials (n : UInt32)
  | maxPolls (n : UInt64)

namespace Setting

/-- The member that gives the value. -/
def member : Setting → Member
  | trials n => ⟨"trials", decimal n.toNat⟩
  | maxPolls n => ⟨"max_polls", decimal n.toNat⟩

/-- The sampling plan with the value in its field. -/
def put : Setting → Sampling → Sampling
  | trials n, p => { p with trials := n.toNat }
  | maxPolls n, p => { p with maxPolls := n.toNat }

end Setting

/-- The fields that are given, each with a value of its own type. -/
structure Given where
  trials : Option UInt32 := none
  maxPolls : Option UInt64 := none

namespace Given

/-- The values given. -/
def settings (given : Given) : List Setting :=
  (given.trials.map Setting.trials).toList ++ (given.maxPolls.map Setting.maxPolls).toList

/-- The sampling plan with the fields that are given, and those of another for the rest. -/
def filledFrom (given : Given) (fallback : Sampling) : Sampling where
  trials := given.trials.elim fallback.trials UInt32.toNat
  maxPolls := given.maxPolls.elim fallback.maxPolls UInt64.toNat

end Given

end Sampling

namespace Config

/-- A section given, with the fields that are given in it. -/
inductive Section where
  | controller (given : Geometry.Given)
  | latency (given : Sampling.Given)

namespace Section

/-- The member that gives the section. -/
def member : Section → Member
  | controller given => ⟨"controller", inAnyOrder Geometry.Setting.member given.settings⟩
  | latency given => ⟨"latency", inAnyOrder Sampling.Setting.member given.settings⟩

/-- The configuration with the section, whose other fields have their defaults. -/
def put : Section → Config → Config
  | controller given, c => { c with controller := given.filledFrom Geometry.default }
  | latency given, c => { c with latency := given.filledFrom Sampling.default }

end Section

/-- The sections that are given. -/
structure Given where
  controller : Option Geometry.Given := none
  latency : Option Sampling.Given := none

namespace Given

/-- The sections given. -/
def sections (given : Given) : List Section :=
  (given.controller.map Section.controller).toList ++ (given.latency.map Section.latency).toList

/-- The configuration with the fields that are given, and those of another for the rest. -/
def filledFrom (given : Given) (fallback : Config) : Config where
  controller := given.controller.elim fallback.controller (·.filledFrom fallback.controller)
  latency := given.latency.elim fallback.latency (·.filledFrom fallback.latency)

/-- The text gives these fields and no others: it is an object with the given sections in any order,
each of them an object with the given fields in any order, and blanks between all tokens. -/
def Writes (given : Given) (text : String) : Prop :=
  Whole (inAnyOrder Section.member given.sections) text

end Given

end Config

/-! ## Decoding it -/

section

variable {L : Decoding} {depth : Nat}

/-- A number in a word is within the width of the word. -/
theorem toNat_le_word (n : UInt64) : n.toNat ≤ Width.word.most := Nat.le_of_lt_succ n.toNat_lt

namespace Geometry

/-- The fields of a geometry have names of their own. -/
theorem wellNamed_fields : WellNamed (Config.geometryFields L) where
  nodup := by
    simp [Config.geometryFields, Config.linesField, Config.contextsField,
      Config.priorityBitsField, Config.baseAddressField]
  plain := by
    simp [Config.geometryFields, Config.linesField, Config.contextsField,
      Config.priorityBitsField, Config.baseAddressField, isPlain]

/-- Each setting gives its field a value, of the width of the field. -/
theorem Setting.gives (x : Setting) :
    Gives L depth (Config.geometryFields L) x.member x.put := by
  cases x with
  | lines n =>
    have hfield : Config.linesField L ∈ Config.geometryFields L := by simp [Config.geometryFields]
    exact (gives_decimal hfield (toNat_le_word n) :)
  | contexts n =>
    have hfield : Config.contextsField L ∈ Config.geometryFields L := by
      simp [Config.geometryFields]
    exact (gives_decimal hfield (toNat_le_word n) :)
  | priorityBits n =>
    have hfield : Config.priorityBitsField L ∈ Config.geometryFields L := by
      simp [Config.geometryFields]
    have hn : n.toNat ≤ Width.byte.most := Nat.le_of_lt_succ n.toNat_lt
    exact (gives_decimal hfield hn :)
  | baseAddress n =>
    have hfield : Config.baseAddressField L ∈ Config.geometryFields L := by
      simp [Config.geometryFields]
    exact (gives_decimal hfield (toNat_le_word n) :)

/-- Values of different fields do not interfere. -/
theorem Setting.put_comm (x y : Setting) (g : Geometry) (h : x.member.name ≠ y.member.name) :
    x.put (y.put g) = y.put (x.put g) := by
  cases x <;> cases y <;> simp_all [Setting.put, Setting.member]

namespace Given

/-- No field is given twice. -/
theorem nodup_settings (given : Given) : (given.settings.map fun x => x.member.name).Nodup := by
  rcases given with ⟨_ | _, _ | _, _ | _, _ | _⟩ <;> simp [settings, Setting.member]

/-- To set what is given is to fill the rest from what was there. -/
theorem foldl_settings (given : Given) (fallback : Geometry) :
    given.settings.foldl (fun g x => x.put g) fallback = given.filledFrom fallback := by
  rcases given with ⟨_ | _, _ | _, _ | _, _ | _⟩ <;> rfl

/-- A section of a geometry means what it gives, and the defaults of its fields for the rest. -/
theorem means (given : Given) {s : List Char}
    (hs : inAnyOrder Setting.member given.settings s) (blank : Geometry) :
    Means L (depth + 1) (L.record (Config.geometryFields L) blank) s
      (given.filledFrom Geometry.default) := by
  rw [← foldl_settings, ← Config.withDefaults_geometryFields blank]
  exact means_inAnyOrder wellNamed_fields Setting.gives Setting.put_comm given.nodup_settings
    blank hs

end Given

end Geometry

namespace Sampling

/-- The fields of a sampling plan have names of their own. -/
theorem wellNamed_fields : WellNamed (Config.samplingFields L) where
  nodup := by simp [Config.samplingFields, Config.trialsField, Config.maxPollsField]
  plain := by simp [Config.samplingFields, Config.trialsField, Config.maxPollsField, isPlain]

/-- Each setting gives its field a value, of the width of the field. -/
theorem Setting.gives (x : Setting) :
    Gives L depth (Config.samplingFields L) x.member x.put := by
  cases x with
  | trials n =>
    have hfield : Config.trialsField L ∈ Config.samplingFields L := by
      simp [Config.samplingFields]
    have hn : n.toNat ≤ Width.half.most := Nat.le_of_lt_succ n.toNat_lt
    exact (gives_decimal hfield hn :)
  | maxPolls n =>
    have hfield : Config.maxPollsField L ∈ Config.samplingFields L := by
      simp [Config.samplingFields]
    exact (gives_decimal hfield (toNat_le_word n) :)

/-- Values of different fields do not interfere. -/
theorem Setting.put_comm (x y : Setting) (p : Sampling) (h : x.member.name ≠ y.member.name) :
    x.put (y.put p) = y.put (x.put p) := by
  cases x <;> cases y <;> simp_all [Setting.put, Setting.member]

namespace Given

/-- No field is given twice. -/
theorem nodup_settings (given : Given) : (given.settings.map fun x => x.member.name).Nodup := by
  rcases given with ⟨_ | _, _ | _⟩ <;> simp [settings, Setting.member]

/-- To set what is given is to fill the rest from what was there. -/
theorem foldl_settings (given : Given) (fallback : Sampling) :
    given.settings.foldl (fun p x => x.put p) fallback = given.filledFrom fallback := by
  rcases given with ⟨_ | _, _ | _⟩ <;> rfl

/-- A section of a sampling plan means what it gives, and the defaults of its fields for the
rest. -/
theorem means (given : Given) {s : List Char}
    (hs : inAnyOrder Setting.member given.settings s) (blank : Sampling) :
    Means L (depth + 1) (L.record (Config.samplingFields L) blank) s
      (given.filledFrom Sampling.default) := by
  rw [← foldl_settings, ← Config.withDefaults_samplingFields blank]
  exact means_inAnyOrder wellNamed_fields Setting.gives Setting.put_comm given.nodup_settings
    blank hs

end Given

end Sampling

namespace Config

/-- The sections have names of their own. -/
theorem wellNamed_sections : WellNamed (sections L) where
  nodup := by simp [sections, controllerSection, latencySection]
  plain := by simp [sections, controllerSection, latencySection, isPlain]

/-- Each section gives what its fields make of their defaults. -/
theorem Section.gives (x : Section) : Gives L (depth + 1) (sections L) x.member x.put := by
  cases x with
  | controller given =>
    exact ⟨⟨controllerSection L, inAnyOrder Geometry.Setting.member given.settings,
      given.filledFrom Geometry.default⟩, by simp [sections], rfl, rfl,
      fun _ hs => given.means hs _⟩
  | latency given =>
    exact ⟨⟨latencySection L, inAnyOrder Sampling.Setting.member given.settings,
      given.filledFrom Sampling.default⟩, by simp [sections], rfl, rfl,
      fun _ hs => given.means hs _⟩

/-- The sections do not interfere. -/
theorem Section.put_comm (x y : Section) (c : Config) (h : x.member.name ≠ y.member.name) :
    x.put (y.put c) = y.put (x.put c) := by
  cases x <;> cases y <;> simp_all [Section.put, Section.member]

namespace Given

/-- No section is given twice. -/
theorem nodup_sections (given : Given) : (given.sections.map fun x => x.member.name).Nodup := by
  rcases given with ⟨_ | _, _ | _⟩ <;> simp [sections, Section.member]

/-- To set the sections given in the default is to fill the rest from the default. -/
theorem foldl_sections (given : Given) :
    given.sections.foldl (fun c x => x.put c) Config.default =
      given.filledFrom Config.default := by
  rcases given with ⟨_ | _, _ | _⟩ <;> rfl

end Given

/-- A text of a configuration means what it gives, and the defaults for the rest. -/
theorem Given.means {given : Given} {s : List Char}
    (hs : inAnyOrder Section.member given.sections s) :
    Means L (depth + 2) (decoder L) s (given.filledFrom Config.default) := by
  rw [← foldl_sections, ← withDefaults_sections ⟨⟨0, 0, 0, 0⟩, ⟨0, 0⟩⟩]
  exact means_inAnyOrder wellNamed_sections Section.gives Section.put_comm given.nodup_sections _ hs

/-- **Every text of a configuration is decoded**, and what it leaves open keeps its default. -/
theorem decode_of_writes (hL : L.Standard) {given : Given} {text : String}
    (h : given.Writes text) :
    L.decode (decoder L) text = .ok (given.filledFrom Config.default) := by
  obtain ⟨ws, s, ws', hws, hs, hws', heq⟩ := h
  exact hL _ _ text ⟨ws, s, ws', hws, Given.means hs, hws', heq⟩

end Config

end

namespace Config

/-! ## Judging it -/

/-- A field that has a range. -/
inductive Field where
  | lines
  | contexts
  | priorityBits
  | trials
  | maxPolls
  deriving DecidableEq

namespace Field

/-- The fields in the order in which they are judged. -/
def all : List Field := [lines, contexts, priorityBits, trials, maxPolls]

/-- The name under which a field is reported. -/
def path : Field → String
  | lines => "num_interrupts"
  | contexts => "num_contexts"
  | priorityBits => "priority_bits"
  | trials => "latency.trials"
  | maxPolls => "latency.max_polls"

/-- The value of the field. -/
def value (c : Config) : Field → Nat
  | lines => c.controller.lines
  | contexts => c.controller.contexts
  | priorityBits => c.controller.priorityBits
  | trials => c.latency.trials
  | maxPolls => c.latency.maxPolls

/-- The largest value that a field may have, if there is one. -/
def most? : Field → Option Nat
  | lines => some 1024
  | contexts => some 15
  | priorityBits => some 8
  | trials | maxPolls => none

/-- The field lies in its range. No field may be zero. -/
def Fits (c : Config) (f : Field) : Prop := 1 ≤ f.value c ∧ ∀ most ∈ f.most?, f.value c ≤ most

instance (c : Config) (f : Field) : Decidable (f.Fits c) :=
  inferInstanceAs (Decidable (1 ≤ f.value c ∧ ∀ most ∈ f.most?, f.value c ≤ most))

/-- The first field that is out of its range, if there is one. -/
def firstUnfit? (c : Config) : Option Field := all.find? fun f => ¬ f.Fits c

/-- What is found if the field is out of its range. -/
def violation (c : Config) : Field → Violation
  | lines => .lines c.controller.lines
  | contexts => .contexts c.controller.contexts
  | priorityBits => .priorityBits c.controller.priorityBits
  | trials => .trials
  | maxPolls => .maxPolls

/-- What is asked of the field, and the value found where a largest one is named. -/
def demand (c : Config) (f : Field) : String :=
  match f.most? with
  | some most => "in 1..=" ++ toString most ++ ", got " ++ toString (f.value c)
  | none => "nonzero"

/-- A field with a largest value fits from 1 to that value. -/
theorem fits_iff_of_most {c : Config} {f : Field} {most : Nat} (h : f.most? = some most) :
    f.Fits c ↔ 1 ≤ f.value c ∧ f.value c ≤ most := by
  simp [Fits, h]

/-- A field without a largest value fits from 1 on. -/
theorem fits_iff_of_no_most {c : Config} {f : Field} (h : f.most? = none) :
    f.Fits c ↔ 1 ≤ f.value c := by
  simp [Fits, h]

/-- What is found on one field. -/
theorem map_filter_singleton {c : Config} {f : Field} {inRange : Prop} [Decidable inRange]
    (h : f.Fits c ↔ inRange) :
    ([f].filter fun f => ¬ f.Fits c).map (violation c) =
      Violation.unless inRange (f.violation c) := by
  by_cases hrange : inRange <;> simp [Violation.unless, h, hrange]

end Field

/-- The violations are those of the fields that do not fit, in their order. -/
theorem violations_eq_filter (c : Config) :
    c.violations = (Field.all.filter fun f => ¬ f.Fits c).map (Field.violation c) := by
  have hall : Field.all = [Field.lines] ++ [Field.contexts] ++ [Field.priorityBits] ++
    [Field.trials] ++ [Field.maxPolls] := rfl
  have hlines : Field.lines.Fits c ↔ _ := Field.fits_iff_of_most rfl
  have hcontexts : Field.contexts.Fits c ↔ _ := Field.fits_iff_of_most rfl
  have hbits : Field.priorityBits.Fits c ↔ _ := Field.fits_iff_of_most rfl
  have htrials : Field.trials.Fits c ↔ _ := Field.fits_iff_of_no_most rfl
  have hpolls : Field.maxPolls.Fits c ↔ _ := Field.fits_iff_of_no_most rfl
  simp only [hall, List.filter_append, List.map_append]
  rw [Field.map_filter_singleton hlines, Field.map_filter_singleton hcontexts,
    Field.map_filter_singleton hbits, Field.map_filter_singleton htrials,
    Field.map_filter_singleton hpolls]
  rfl

/-- A configuration is accepted if all its fields fit. -/
theorem validate_eq_ok_iff_fits {c : Config} : c.validate = .ok () ↔ ∀ f : Field, f.Fits c := by
  have hall : ∀ f : Field, f ∈ Field.all := by
    intro f
    cases f <;> decide
  rw [validate_eq_ok_iff, ← violations_eq_nil_iff, violations_eq_filter, List.map_eq_nil_iff,
    List.filter_eq_nil_iff]
  simp [hall]

/-- **A configuration is refused for the first field that does not fit.** -/
theorem validate_eq_error_iff {c : Config} {v : Violation} :
    c.validate = .error v ↔ ∃ f, Field.firstUnfit? c = some f ∧ f.violation c = v := by
  have hhead : c.validate = .error v ↔ c.violations.head? = some v := by
    unfold validate
    cases c.violations <;> simp
  rw [hhead, violations_eq_filter, List.head?_map, List.head?_filter, Option.map_eq_some_iff]
  rfl

/-- The text on a field that has a largest value. -/
theorem text_of_most {path front : String} (h : front = path ++ " must be " ++ "in 1..=")
    (most found : Nat) :
    front ++ toString most ++ ", got " ++ toString found =
      path ++ " must be " ++ ("in 1..=" ++ toString most ++ ", got " ++ toString found) := by
  rw [h]
  simp only [String.append_assoc]

/-- What is wrong with a field is told by its name and what is asked of it. -/
theorem detail_violation (c : Config) (f : Field) :
    (f.violation c).detail = f.path ++ " must be " ++ f.demand c := by
  cases f with
  | lines => exact text_of_most (by decide) 1024 c.controller.lines
  | contexts => exact text_of_most (by decide) 15 c.controller.contexts
  | priorityBits => exact text_of_most (by decide) 8 c.controller.priorityBits
  | trials =>
    show "latency.trials must be nonzero" = "latency.trials" ++ " must be " ++ "nonzero"
    decide
  | maxPolls =>
    show "latency.max_polls must be nonzero" = "latency.max_polls" ++ " must be " ++ "nonzero"
    decide

/-! ## Loading it -/

/-- **A configuration is loaded from every text that gives its fields, or refused for its values**,
if decoding is standard. However the text is laid out, it is decoded: what is loaded has the values
given, and the default of each field that is not given. It is loaded if each of the five fields with
a range lies in it. Otherwise the first that does not, in their order and not in that of the text,
is reported, with a message that starts with its name. -/
theorem load_accepts_or_rejects {L : Decoding} (hL : L.Standard) {given : Given} {text : String}
    (h : given.Writes text) :
    let c := given.filledFrom Config.default
    (∀ fault, load L text ≠ .error (.unreadable fault)) ∧
    (∀ loaded, load L text = .ok loaded ↔ loaded = c ∧ ∀ f : Field, f.Fits c) ∧
    ((¬ ∀ f : Field, f.Fits c) → ∃ f, Field.firstUnfit? c = some f ∧
      load L text = .error (.rejected (f.violation c)) ∧
      (f.violation c).message =
        "invalid configuration: " ++ (f.path ++ " must be " ++ f.demand c)) := by
  intro c
  have hdecode : L.decode (decoder L) text = .ok c := decode_of_writes hL h
  cases hvalid : c.validate with
  | ok =>
    have hfits : ∀ f : Field, f.Fits c := validate_eq_ok_iff_fits.mp hvalid
    have htext : load L text = .ok c := by simp [load, hdecode, hvalid]
    refine ⟨by simp [htext], fun loaded => ?_, fun hunfit => absurd hfits hunfit⟩
    simp [htext, hfits, eq_comm]
  | error v =>
    have hunfit : ¬ ∀ f : Field, f.Fits c := by
      rw [← validate_eq_ok_iff_fits, hvalid]
      simp
    obtain ⟨f, hfirst, rfl⟩ := validate_eq_error_iff.mp hvalid
    have htext : load L text = .error (.rejected (f.violation c)) := by
      simp [load, hdecode, hvalid]
    refine ⟨by simp [htext], fun loaded => ?_, fun _ => ⟨f, hfirst, htext, ?_⟩⟩
    · simp [htext, hunfit]
    · exact congrArg ("invalid configuration: " ++ ·) (detail_violation c f)

/-- Two fields are out of range, and the one that is reported stands in the section that comes last
in the text. The largest address that a word holds is as good as any other. The texts are put
together from the inside out, each member with the blanks around its tokens. -/
theorem load_accepts_or_rejects_of_two_texts :
    let faulty : Given :=
      { controller := some { lines := some 1024, priorityBits := some 9 },
        latency := some { trials := some 0 } }
    let faultyText := "\x7b \"latency\": \x7b\"trials\":0\x7d,\n\"controller\" :\x7b" ++
      "\"priority_bits\":9 ,\t\"num_interrupts\":1024\x7d\x7d\n"
    let far : Given := { controller := some { baseAddress := some 0xFFFFFFFFFFFFFFFF } }
    let farText := "\x7b\"controller\":\x7b\"base_addr\":18446744073709551615\x7d\x7d"
    reading.Standard ∧
      (faulty.Writes faultyText ∧ ¬ Field.priorityBits.Fits (faulty.filledFrom Config.default) ∧
        ¬ Field.trials.Fits (faulty.filledFrom Config.default) ∧
        ofText faultyText = .error (.rejected (.priorityBits 9)) ∧
        (Violation.priorityBits 9).message =
          "invalid configuration: priority_bits must be in 1..=8, got 9") ∧
      far.Writes farText ∧
      ofText farText = .ok { controller := { baseAddress := 0xFFFFFFFFFFFFFFFF } } := by
  intro faulty faultyText far farText
  have hnone : AllBlank [] := by decide
  have hspace : AllBlank [' '] := by decide
  have htab : AllBlank ['\t'] := by decide
  have hnewline : AllBlank ['\n'] := by decide
  have htrials := @MemberText.spaced (Sampling.Setting.trials 0).member [] [] [] [] _
    hnone hnone hnone hnone rfl
  have hbits := @MemberText.spaced (Geometry.Setting.priorityBits 9).member [] [] [] [' '] _
    hnone hnone hnone hspace rfl
  have hlines := @MemberText.spaced (Geometry.Setting.lines 1024).member ['\t'] [] [] [] _
    htab hnone hnone hnone rfl
  have hlatency := @MemberText.spaced (Section.latency { trials := some 0 }).member
    [' '] [] [' '] [] _ hspace hnone hspace hnone
    ⟨[.trials 0], .refl _, .members (.last htrials)⟩
  have hcontroller := @MemberText.spaced
    (Section.controller { lines := some 1024, priorityBits := some 9 }).member
    ['\n'] [' '] [] [] _ hnewline hspace hnone hnone
    ⟨[.priorityBits 9, .lines 1024], .swap _ _ _, .members (.more hbits (.last hlines))⟩
  have hfaulty : faulty.Writes faultyText :=
    ⟨[], _, ['\n'], hnone, ⟨[.latency _, .controller _], .swap _ _ _,
      .members (.more hlatency (.last hcontroller))⟩, hnewline, by decide +kernel⟩
  have haddress := @MemberText.spaced (Geometry.Setting.baseAddress 0xFFFFFFFFFFFFFFFF).member
    [] [] [] [] _ hnone hnone hnone hnone rfl
  have hplace := @MemberText.spaced
    (Section.controller { baseAddress := some 0xFFFFFFFFFFFFFFFF }).member
    [] [] [] [] _ hnone hnone hnone hnone
    ⟨[.baseAddress 0xFFFFFFFFFFFFFFFF], .refl _, .members (.last haddress)⟩
  have hfar : far.Writes farText :=
    ⟨[], _, [], hnone, ⟨[.controller _], .refl _, .members (.last hplace)⟩, hnone,
      by decide +kernel⟩
  have hbad : ¬ Field.priorityBits.Fits (faulty.filledFrom Config.default) := by decide
  have hfirst : Field.firstUnfit? (faulty.filledFrom Config.default) = some .priorityBits := by
    decide
  obtain ⟨-, -, hrejected⟩ := load_accepts_or_rejects standard_reading hfaulty
  obtain ⟨f, hf, htext, hmessage⟩ := hrejected fun hfits => hbad (hfits .priorityBits)
  cases hf.symm.trans hfirst
  obtain ⟨-, hloaded, -⟩ := load_accepts_or_rejects standard_reading hfar
  have hfits : ∀ f : Field, f.Fits (far.filledFrom Config.default) := by
    intro f
    cases f <;> decide
  refine ⟨standard_reading,
    ⟨hfaulty, hbad, by decide, htext, hmessage.trans (by decide +kernel)⟩, hfar, ?_⟩
  exact (hloaded _).mpr ⟨by decide, hfits⟩

end Config

end Irq
