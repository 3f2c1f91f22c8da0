import Qualification.Proofs.Document.Word
import Qualification.Proofs.Json.Record
import Qualification.Proofs.Protocol.Validity
import Qualification.Protocol.Reading

/-! # Protocols in JSON text

A valid protocol is read back from the text that it is printed as, on one line or with one
item a line, and passes the checks again. What is printed of each part is read as the part:
fields with nothing to write are left out, and the forms of a threshold have texts of
different kinds.
-/

namespace Qualification

open Document Json

variable {depth : Nat}

/-- A parameter whose numbers have a text. -/
structure ParameterDef.Writable (d : ParameterDef) : Prop where
  min : ∀ x, d.min = some x → x.isFinite
  max : ∀ x, d.max = some x → x.isFinite
  default : ∀ v, d.default = some v → Json.Writable v

/-- A value that a parameter admits is a single number, text or truth value. -/
theorem ParameterDef.carries_default {d : ParameterDef} {v : Json} (writable : Json.Writable v)
    (admitted : d.check v = .ok ()) : Carries depth Decoder.json v v := by
  cases writable with
  | null => cases type : d.type <;> simp [check, type, Json.toFloat?, toText?, toBool?] at admitted
  | bool b => exact .storable (.bool b) nofun
  | integer held => exact .storable (.integer held) nofun
  | float finite => exact .storable (.float finite) nofun
  | text s => exact .storable (.text s) nofun
  | array | object =>
      cases type : d.type <;> simp [check, type, Json.toFloat?, toText?, toBool?] at admitted

theorem ParameterDef.carries {d : ParameterDef} (valid : d.Valid) (writable : d.Writable) :
    Carries (depth + 1) decode d.toJson d :=
  Record.Fills.map ParameterDef.mk (.field (.text d.name))
    |>.seq (.field (.word d.type.find_text))
    |>.seq (.optional fun s _ => .text s)
    |>.seq (.optional fun x given => .float (writable.min x given))
    |>.seq (.optional fun x given => .float (writable.max x given))
    |>.seq (.optional (f := id) fun v given =>
      carries_default (writable.default v given) (valid.default v given))
    |>.carries (by decide) (by simp) "ParameterDef"

/-- A step whose numbers have a text: its position fits a word. -/
structure StepDef.Writable (s : StepDef) : Prop where
  sequence : s.sequence < Word.count 32
  durationHours : ∀ x, s.durationHours = some x → x.isFinite

theorem StepDef.carries {s : StepDef} (writable : s.Writable) :
    Carries (depth + 1) decode s.toJson s :=
  Record.Fills.map StepDef.mk (.field (.text s.id))
    |>.seq (.field (.natBelow (by decide) writable.sequence "u32"))
    |>.seq (.field (.text s.description))
    |>.seq (.field (.text s.action))
    |>.seq (.optional fun x given => .float (writable.durationHours x given))
    |>.seq (.optional fun c _ => .word c.find_text)
    |>.carries (by decide) (by simp) "StepDef"

theorem PhaseDef.carries {p : PhaseDef} (writable : ∀ s ∈ p.steps, s.Writable) :
    Carries (depth + 3) decode p.toJson p :=
  Record.Fills.map PhaseDef.mk (.field (.text p.id))
    |>.seq (.optional fun s _ => .text s)
    |>.seq (.optional fun s _ => .text s)
    |>.seq (.field (.list fun s member => StepDef.carries (writable s member)))
    |>.carries (by decide) (by simp) "PhaseDef"

theorem MeasurementSpec.carries {s : MeasurementSpec} (writable : s.expectedCount < Word.count 32) :
    Carries (depth + 1) decode s.toJson s :=
  Record.Fills.map MeasurementSpec.mk (.field (.text s.id))
    |>.seq (.field (.text s.parameter))
    |>.seq (.optional fun s _ => .text s)
    |>.seq (.optional fun s _ => .text s)
    |>.seq (.optional fun s _ => .text s)
    |>.seq (.field (.natBelow (by decide) writable "u32"))
    |>.seq (.optional fun t _ => .word t.ofText_text)
    |>.carries (by decide) (by simp) "MeasurementSpec"

/-- A threshold whose readings are finite. -/
def ThresholdValue.Writable : ThresholdValue → Prop
  | scalar (.number x) => x.isFinite
  | scalar _ => True
  | range bounds => ∀ x ∈ bounds, x.isFinite

theorem ofList_finite {xs : List Float} (finite : ∀ x ∈ xs, x.isFinite) :
    ofList ofFloat xs = .array (xs.map .float) :=
  congrArg Json.array (List.map_congr_left fun x member => if_pos (finite x member))

theorem ofJson_floats (xs : List Float) : Node.ofJson (.array (xs.map .float)) =
    .sequence none (xs.map fun x => .value (.float x)) none := by
  rw [Node.ofJson, ofItems_eq_map, List.map_map]
  rfl

/-- Readings that are set aside are left as they are. -/
theorem bufferItems_floats (place : Place) (index : Nat) (xs : List Float) :
    Decoder.bufferItems place index (xs.map fun x => .value (.float x)) =
      .ok (xs.map fun x => .value (.float x)) := by
  induction xs generalizing index with
  | nil => rfl
  | cons x more ih =>
      simp [Decoder.bufferItems, Decoder.buffer, ih, bind, Except.bind, pure, Except.pure]

theorem ThresholdValue.carries_range {bounds : List Float}
    (finite : ∀ x ∈ bounds, x.isFinite) :
    Carries (depth + 1) decode (ofList ofFloat bounds) (.range bounds) := by
  rw [ofList_finite finite]
  refine ⟨.array ?_, nofun, fun place deep => ?_⟩
  · exact List.forall_mem_map.mpr fun x member => .float (finite x member)
  · obtain ⟨inner, down, _⟩ := Place.descend_ok deep
    have each : ∀ x ∈ bounds, Gives 0 Decoder.float (.value (.float x)) x := fun x _ => .float x
    have read := Gives.items each (Nat.zero_le { place with buffered := true }.depth) 0
    rw [ofJson_floats]
    simp [decode, Decoder.buffer, down, bufferItems_floats, ofNode?, read, Decoder.close, bind,
      Except.bind, pure, Except.pure]

/-- The text of a threshold is read in the form that it has: no earlier form takes it. -/
theorem ThresholdValue.carries {v : ThresholdValue} (writable : v.Writable) :
    Carries (depth + 1) decode v.toJson v := by
  cases v with
  | scalar s =>
      cases s with
      | bool b => exact ⟨.bool b, nofun, fun _ _ => rfl⟩
      | text s => exact ⟨.text s, nofun, fun _ _ => rfl⟩
      | number x =>
          have finite : x.isFinite := writable
          rw [toJson, ScalarValue.toJson, ofFloat, if_pos finite]
          exact ⟨.float finite, by simp, fun _ _ => rfl⟩
  | range bounds => exact carries_range writable

theorem Threshold.carries {t : Threshold} (writable : t.value.Writable) :
    Carries (depth + 2) decode t.toJson t :=
  Record.Fills.map Threshold.mk (.field (.text t.parameter))
    |>.seq (.field (.word t.operator.find_text))
    |>.seq (.field (ThresholdValue.carries writable))
    |>.carries (by decide) (by simp) "Threshold"

theorem AcceptanceCriterion.carries {c : AcceptanceCriterion}
    (writable : c.threshold.value.Writable) :
    Carries (depth + 3) decode c.toJson c :=
  Record.Fills.map AcceptanceCriterion.mk (.field (.text c.id))
    |>.seq (.field (.text c.description))
    |>.seq (.field (.word c.severity.find_text))
    |>.seq (.field (Threshold.carries writable))
    |>.carries (by decide) (by simp [Severity.toJson]) "AcceptanceCriterion"

theorem SafetyLimit.carries {l : SafetyLimit} (finite : l.value.isFinite) :
    Carries (depth + 1) decode l.toJson l :=
  Record.Fills.map SafetyLimit.mk (.field (.float finite))
    |>.seq (.field (.word l.action.find_text))
    |>.seq (.field (.word l.direction.find_text))
    |>.carries (by decide) (by simp) "SafetyLimit"

structure IrradianceTolerance.Writable (t : IrradianceTolerance) : Prop where
  nominal : t.nominal.isFinite
  tolerancePct : t.tolerancePct.isFinite

structure TemperatureTolerance.Writable (t : TemperatureTolerance) : Prop where
  nominal : t.nominal.isFinite
  tolerance : t.tolerance.isFinite

structure OutlierSettings.Writable (s : OutlierSettings) : Prop where
  threshold : ∀ k, s.threshold = some k → k.isFinite
  minPoints : s.minPoints < Word.count 64

/-- Settings whose numbers have a text. -/
structure QcSettings.Writable (s : QcSettings) : Prop where
  minCompletionRate : s.minCompletionRate.isFinite
  maxCv : s.maxCv.isFinite
  irradiance : ∀ t, s.irradiance = some t → t.Writable
  temperature : ∀ t, s.temperature = some t → t.Writable
  outlier : s.outlier.Writable

theorem IrradianceTolerance.carries {t : IrradianceTolerance} (writable : t.Writable) :
    Carries (depth + 1) decode t.toJson t :=
  Record.Fills.map IrradianceTolerance.mk (.field (.text t.parameter))
    |>.seq (.field (.float writable.nominal))
    |>.seq (.field (.float writable.tolerancePct))
    |>.carries (by decide) (by simp) "IrradianceTolerance"

theorem TemperatureTolerance.carries {t : TemperatureTolerance} (writable : t.Writable) :
    Carries (depth + 1) decode t.toJson t :=
  Record.Fills.map TemperatureTolerance.mk (.field (.text t.parameter))
    |>.seq (.field (.float writable.nominal))
    |>.seq (.field (.float writable.tolerance))
    |>.carries (by decide) (by simp) "TemperatureTolerance"

theorem OutlierSettings.carries {s : OutlierSettings} (writable : s.Writable) :
    Carries (depth + 1) decode s.toJson s :=
  Record.Fills.map OutlierSettings.mk (.field (.word s.method.find_text))
    |>.seq (.optional fun k given => .float (writable.threshold k given))
    |>.seq (.field (.natBelow (by decide) writable.minPoints "usize"))
    |>.carries (by decide) (by simp) "OutlierSettings"

theorem QcSettings.carries {s : QcSettings} (writable : s.Writable) :
    Carries (depth + 2) decode s.toJson s :=
  Record.Fills.map QcSettings.mk (.field (.float writable.minCompletionRate))
    |>.seq (.field (.float writable.maxCv))
    |>.seq (.optional fun t given => IrradianceTolerance.carries (writable.irradiance t given))
    |>.seq (.optional fun t given => TemperatureTolerance.carries (writable.temperature t given))
    |>.seq (.field (OutlierSettings.carries writable.outlier))
    |>.carries (by decide) (by simp) "QcSettings"

namespace ProtocolDefinition

variable {p : ProtocolDefinition}

/-- A protocol that a program holds, with finite readings: counts fit their words, and the
    limits are in the order of their names. -/
structure Writable (p : ProtocolDefinition) : Prop where
  parameters : ∀ d ∈ p.parameters, d.Writable
  phases : ∀ ph ∈ p.phases, ∀ s ∈ ph.steps, s.Writable
  specs : ∀ s ∈ p.measurementSpecs, s.expectedCount < Word.count 32
  criteria : ∀ c ∈ p.acceptanceCriteria, c.threshold.value.Writable
  limitNames : p.safetyLimits.Sorted
  limits : ∀ e ∈ p.safetyLimits, e.2.value.isFinite
  settings : ∀ qc, p.qc = some qc → qc.Writable

theorem carries (valid : p.Valid) (writable : p.Writable) :
    Carries (depth + 5) decode p.toJson p :=
  Record.Fills.map ProtocolDefinition.mk (.field (.text p.id))
    |>.seq (.field (.text p.version))
    |>.seq (.field (.text p.name))
    |>.seq (.field (.text p.category))
    |>.seq (.optional fun s _ => .text s)
    |>.seq (.field (.list fun d member =>
      ParameterDef.carries (valid.parameters d member) (writable.parameters d member)))
    |>.seq (.field (.list fun ph member => PhaseDef.carries (writable.phases ph member)))
    |>.seq (.field (.list fun s member =>
      MeasurementSpec.carries (writable.specs s member)))
    |>.seq (.field (.list fun c member =>
      AcceptanceCriterion.carries (writable.criteria c member)))
    |>.seq (.field (.dictionary writable.limitNames fun e member =>
      SafetyLimit.carries (writable.limits e member)))
    |>.seq (.optional fun qc given => QcSettings.carries (writable.settings qc given))
    |>.carries (by decide) (by simp) "ProtocolDefinition"

theorem document (passed : Validation.check p = .ok ()) (writable : p.Writable) :
    Carries levels decode p.toJson p :=
  have valid := Validation.valid_of_check passed
  (carries valid writable : Carries (122 + 5) decode p.toJson p)

/-- A text whose tree is that of the protocol is parsed as the protocol. -/
theorem parse_of_source {text : String} (passed : Validation.check p = .ok ())
    (writable : p.Writable) (read : source text = ⟨.ofJson p.toJson, none⟩) :
    parse .json text = .ok p := by
  have decoded := (document passed writable).gives (.root .json) (Nat.le_refl _)
  simp [parse, ofText, Json.decode, read, Source.decode, decoded, Decoder.close, passed, bind,
    Except.bind, pure, Except.pure]

theorem parse_compact (passed : Validation.check p = .ok ()) (writable : p.Writable) :
    parse .json p.toJson.compact = .ok p :=
  parse_of_source passed writable (source_compact (document passed writable).writable)

/-- A valid protocol is given back by its document, and by both texts of that, and passes the
    checks again. -/
theorem parse_printed (passed : Validation.check p = .ok ()) (writable : p.Writable) :
    decodeValue decode p.toJson = .ok p ∧ parse .json p.toJson.compact = .ok p ∧
      parse .json p.toJson.pretty = .ok p := by
  have document := document passed writable
  refine ⟨document.gives (.root .json) (Nat.le_refl _), parse_compact passed writable, ?_⟩
  exact parse_of_source passed writable (source_pretty document.writable)

/-- An illustration: a protocol with every field that may be left out, a value of each kind,
    and a threshold of each form. -/
def everyField : ProtocolDefinition where
  id := "IEC-7"
  version := "2.0.10"
  name := "Damp \"heat\""
  category := "climate"
  description := some ""
  parameters := [
    ⟨"gain", .float, some "dB", some (-0.0), some 1e30, some (.float 0.1)⟩,
    ⟨"cycles", .integer, none, none, none, some (.integer 200)⟩,
    ⟨"operator", .string, none, none, none, some (.text "n/a")⟩,
    ⟨"dark", .boolean, none, none, none, some (.bool false)⟩]
  phases := [⟨"soak", some "Soak", some "85/85",
    [⟨"heat", 1, "", "hold", some 1000, some .condition⟩]⟩]
  measurementSpecs := [⟨"final", "power", some "W", some "flasher", some "1%", 3, some .postTest⟩]
  acceptanceCriteria := [
    ⟨"a", "", .critical, ⟨"power", .ge, .scalar (.number 200)⟩⟩,
    ⟨"b", "no cracks", .info, ⟨"cracked", .eq, .scalar (.bool false)⟩⟩,
    ⟨"c", "", .error, ⟨"grade", .ne, .scalar (.text "true")⟩⟩,
    ⟨"d", "", .warning, ⟨"humidity", .between, .range [80, 90]⟩⟩]
  safetyLimits := [("pressure", ⟨0.5, .abort, .min⟩), ("temperature", ⟨95, .warn, .max⟩)]
  qc := some ⟨90, 2, some ⟨"sun", 1000, 5⟩, some ⟨"chamber", 25, 0.5⟩, ⟨.zScore, some 3, 8⟩⟩

theorem everyField_valid : Validation.check everyField = .ok () := by
  refine Validation.check_ok.mpr ⟨?_, ?_, ?_, ?_, ?_, ?_, ?_, ?_, ?_, ?_, ?_⟩
  all_goals decide +kernel

theorem everyField_writable : everyField.Writable where
  parameters := by
    simp only [everyField, List.forall_mem_cons]
    refine ⟨⟨?_, ?_, ?_⟩, ⟨nofun, nofun, ?_⟩, ⟨nofun, nofun, ?_⟩, ⟨nofun, nofun, ?_⟩, nofun⟩
    all_goals simp only [Option.some.injEq, forall_eq']
    · decide
    · decide +kernel
    · exact .float (by decide)
    · exact .integer (by decide)
    · exact .text _
    · exact .bool _
  phases := by
    simp only [everyField, List.forall_mem_cons]
    exact ⟨⟨⟨by decide, by rintro _ ⟨⟩; decide⟩, nofun⟩, nofun⟩
  specs := by decide
  criteria := by
    simp only [everyField, List.forall_mem_cons]
    refine ⟨?_, trivial, trivial, ?_, nofun⟩
    · exact (by decide : (200 : Float).isFinite)
    · exact (by decide : ∀ x ∈ [(80 : Float), 90], x.isFinite)
  limitNames := by
    have names : Dictionary.keys everyField.safetyLimits = ["pressure", "temperature"] := rfl
    rw [Dictionary.Sorted, names]
    decide
  limits := by decide
  settings := by
    rintro _ ⟨⟩
    refine ⟨by decide, by decide, ?_, ?_, ?_, by decide⟩
    · rintro _ ⟨⟩
      exact ⟨by decide, by decide⟩
    · rintro _ ⟨⟩
      exact ⟨by decide, by decide⟩
    · rintro _ ⟨⟩
      decide

theorem everyField_printed :
    Validation.check everyField = .ok () ∧ everyField.Writable ∧
      decodeValue decode everyField.toJson = .ok everyField ∧
        parse .json everyField.toJson.compact = .ok everyField ∧
          parse .json everyField.toJson.pretty = .ok everyField :=
  ⟨everyField_valid, everyField_writable, parse_printed everyField_valid everyField_writable⟩

end ProtocolDefinition

end Qualification
