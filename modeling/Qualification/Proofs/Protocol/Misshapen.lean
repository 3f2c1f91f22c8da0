import Qualification.Proofs.Document.Misshapen
import Qualification.Proofs.Yaml.Value
import Qualification.Protocol.Reading

/-! # Documents that are no protocols

A text that holds one value of its format, but no protocol, is refused for the schema, whatever is
wrong with it and wherever that is. What is not refused so are the failures that do not look like
ones of the shape: those alone are told as if the text were not well formed.
-/

namespace Qualification

open Document

section

variable {depth : Nat}

theorem ParameterDef.judges : decode.Judges (depth + 1) :=
  Record.Judges.map ParameterDef.mk (.required Decoder.judges_text)
    |>.seq (.required Words.judges_read)
    |>.seq (.optionalDefault Decoder.judges_text)
    |>.seq (.optionalDefault Decoder.judges_float)
    |>.seq (.optionalDefault Decoder.judges_float)
    |>.seq (.optionalDefault Decoder.judges_json)
    |>.read "ParameterDef"

theorem StepDef.judges : decode.Judges (depth + 1) :=
  Record.Judges.map StepDef.mk (.required Decoder.judges_text)
    |>.seq (.required (Decoder.judges_natBelow _ _))
    |>.seq (.withDefault Decoder.judges_text _)
    |>.seq (.required Decoder.judges_text)
    |>.seq (.optionalDefault Decoder.judges_float)
    |>.seq (.optionalDefault Words.judges_read)
    |>.read "StepDef"

theorem PhaseDef.judges : decode.Judges (depth + 3) :=
  Record.Judges.map PhaseDef.mk (.required Decoder.judges_text)
    |>.seq (.optionalDefault Decoder.judges_text)
    |>.seq (.optionalDefault Decoder.judges_text)
    |>.seq (.required (.list StepDef.judges))
    |>.read "PhaseDef"

theorem MeasurementSpec.judges : decode.Judges (depth + 1) :=
  Record.Judges.map MeasurementSpec.mk (.required Decoder.judges_text)
    |>.seq (.required Decoder.judges_text)
    |>.seq (.optionalDefault Decoder.judges_text)
    |>.seq (.optionalDefault Decoder.judges_text)
    |>.seq (.optionalDefault Decoder.judges_text)
    |>.seq (.withDefault (Decoder.judges_natBelow _ _) _)
    |>.seq (.optionalDefault Words.judges_read)
    |>.read "MeasurementSpec"

/-- A value that fits no form of a threshold is told by that, at the record around it. -/
theorem ThresholdValue.judges : decode.Judges depth := fun place node _ sees => by
  refine (Decoder.judged_buffer node sees).bind fun settled _ => ?_
  split
  · exact .ok _
  · exact .error (.data _ fun _ => .noForm _)

theorem Threshold.judges : decode.Judges (depth + 1) :=
  Record.Judges.map Threshold.mk (.required Decoder.judges_text)
    |>.seq (.required Words.judges_read)
    |>.seq (.required ThresholdValue.judges)
    |>.read "Threshold"

theorem AcceptanceCriterion.judges : decode.Judges (depth + 2) :=
  Record.Judges.map AcceptanceCriterion.mk (.required Decoder.judges_text)
    |>.seq (.withDefault Decoder.judges_text _)
    |>.seq (.required Words.judges_read)
    |>.seq (.required Threshold.judges)
    |>.read "AcceptanceCriterion"

theorem SafetyLimit.judges : decode.Judges (depth + 1) :=
  Record.Judges.map SafetyLimit.mk (.required Decoder.judges_float)
    |>.seq (.required Words.judges_read)
    |>.seq (.withDefault Words.judges_read _)
    |>.read "SafetyLimit"

theorem IrradianceTolerance.judges : decode.Judges (depth + 1) :=
  Record.Judges.map IrradianceTolerance.mk (.withDefault Decoder.judges_text _)
    |>.seq (.required Decoder.judges_float)
    |>.seq (.required Decoder.judges_float)
    |>.read "IrradianceTolerance"

theorem TemperatureTolerance.judges : decode.Judges (depth + 1) :=
  Record.Judges.map TemperatureTolerance.mk (.withDefault Decoder.judges_text _)
    |>.seq (.required Decoder.judges_float)
    |>.seq (.required Decoder.judges_float)
    |>.read "TemperatureTolerance"

theorem OutlierSettings.judges : decode.Judges (depth + 1) :=
  Record.Judges.map OutlierSettings.mk (.withDefault Words.judges_read _)
    |>.seq (.optionalDefault Decoder.judges_float)
    |>.seq (.withDefault (Decoder.judges_natBelow _ _) _)
    |>.read "OutlierSettings"

theorem QcSettings.judges : decode.Judges (depth + 2) :=
  Record.Judges.map QcSettings.mk (.withDefault Decoder.judges_float _)
    |>.seq (.withDefault Decoder.judges_float _)
    |>.seq (.optionalDefault IrradianceTolerance.judges)
    |>.seq (.optionalDefault TemperatureTolerance.judges)
    |>.seq (.withDefault OutlierSettings.judges _)
    |>.read "QcSettings"

theorem ProtocolDefinition.judges : decode.Judges (depth + 5) :=
  Record.Judges.map ProtocolDefinition.mk (.required Decoder.judges_text)
    |>.seq (.required Decoder.judges_text)
    |>.seq (.required Decoder.judges_text)
    |>.seq (.required Decoder.judges_text)
    |>.seq (.optionalDefault Decoder.judges_text)
    |>.seq (.withDefault (.list ParameterDef.judges) _)
    |>.seq (.required (.list PhaseDef.judges))
    |>.seq (.withDefault (.list MeasurementSpec.judges) _)
    |>.seq (.withDefault (.list AcceptanceCriterion.judges) _)
    |>.seq (.withDefault (.dictionary SafetyLimit.judges) _)
    |>.seq (.optionalDefault QcSettings.judges)
    |>.read "ProtocolDefinition"

end

namespace ProtocolDefinition

theorem occursIn_of_infix {part cs : List Char} (h : part <:+: cs) : occursIn part cs := by
  obtain ⟨before, behind, rfl⟩ := h
  induction before with
  | nil =>
      cases part with
      | nil => cases behind <;> rfl
      | cons c rest =>
          refine Bool.or_eq_true_iff.mpr (.inl ?_)
          rw [List.isPrefixOf_iff_prefix]
          exact List.prefix_append _ _
  | cons c before ih => exact Bool.or_eq_true_iff.mpr (.inr ih)

theorem infix_append {part before : String} (behind : String)
    (h : part.toList <:+: before.toList) : part.toList <:+: (before ++ behind).toList := by
  rw [String.toList_append]
  exact h.trans (List.prefix_append _ _).isInfix

/-- The phrase that the message of a cause of the shape has. -/
theorem exists_phrase {cause : Cause} (h : cause.OfShape) :
    ∃ phrase ∈ ["missing field", "invalid type", "unknown variant", "did not match"],
      phrase.toList <:+: (cause.message .yaml).toList := by
  cases h with
  | missingField name =>
      exact ⟨"missing field", by decide, infix_append _ (infix_append _ (by decide))⟩
  | unknownVariant name known =>
      exact ⟨"unknown variant", by decide,
        infix_append _ (infix_append _ (infix_append _ (by decide)))⟩
  | invalidType found expected =>
      exact ⟨"invalid type", by decide,
        infix_append _ (infix_append _ (infix_append _ (by decide)))⟩
  | noForm type => exact ⟨"did not match", by decide, infix_append _ (by decide)⟩
  | form => exact ⟨"invalid type", by decide, by decide⟩

/-- The message of a cause of the shape speaks of it, behind whatever path. -/
theorem speaksOfShape_of_ofShape {cause : Cause} (h : cause.OfShape) (path : String) :
    speaksOfShape ((Failure.data path cause).message .yaml) := by
  obtain ⟨phrase, isPhrase, within⟩ := exists_phrase h
  refine List.any_eq_true.mpr ⟨phrase, isPhrase, occursIn_of_infix ?_⟩
  simp only [Failure.message]
  split
  · exact within
  · rw [String.toList_append]
    exact within.trans (List.suffix_append _ _).isInfix

end ProtocolDefinition

/-- How documents of a format are read. -/
def Format.dialect : Format → Dialect
  | .json => .json
  | .yaml => .yaml

/-- Does a text hold one value of the format, of whatever shape? -/
def Format.isHeld (text : String) : Format → Bool
  | .json => (Json.parse text).toOption.isSome
  | .yaml => (Yaml.Value.ofText? text).isSome

/-- The error for a well-formed document of another shape: of the schema, or the one for a failure
    that does not look like it. -/
inductive ProtocolError.OfShape (format : Format) : ProtocolError → Prop where
  | schema (message : String) : OfShape format (.schema .inText message)
  | disguised {failure : Failure} : Disguised format.dialect failure →
      OfShape format (.parse format (failure.message format.dialect))

namespace ProtocolDefinition

variable {format : Format} {text : String} {e : ProtocolError}

/-- A decoder that judges finds nothing else wrong with a sound tree with nothing behind it. -/
theorem judged_decode {source : Source} {dialect : Dialect}
    (sees : (Place.root dialect).Sees source.root) (ended : source.rest = none)
    (deep : 5 ≤ (Place.root dialect).depth) (same : (Place.root dialect).dialect = dialect) :
    Judged dialect (source.decode dialect decode) := by
  have judges : decode.Judges 5 := ProtocolDefinition.judges
  have judged := judges _ _ deep sees
  rw [same] at judged
  exact judged.bind fun p _ => by
    rw [ended]
    exact .ok p

theorem judged_json (held : Format.json.isHeld text) : Judged .json (Json.decode decode text) := by
  cases read : Json.parse text with
  | error failure => simp [Format.isHeld, read, Except.toOption] at held
  | ok v =>
      obtain ⟨_, given, closed⟩ := bind_ok read
      obtain ⟨_, closed, -⟩ := bind_ok closed
      have ended : (Json.source text).rest = none := by
        cases rest : (Json.source text).rest with
        | none => rfl
        | some fault =>
            rw [rest] at closed
            cases closed
      exact judged_decode ⟨rfl, Sound.json _ (Place.reads_root .json) given⟩ ended (by decide) rfl

theorem judged_yaml (held : Format.yaml.isHeld text) : Judged .yaml (Yaml.decode decode text) := by
  obtain ⟨v, read⟩ := Option.isSome_iff_exists.mp held
  obtain ⟨ended, sees⟩ := Yaml.Value.sound_of_ofText? read
  exact judged_decode sees ended (by decide) rfl

theorem jsonError_ofShape {failure : Failure} (h : Misshapen .json failure) :
    (jsonError failure).OfShape .json := by
  cases h with
  | json path cause => exact .schema _
  | disguised disguised =>
      cases disguised with
      | notWord => exact @ProtocolError.OfShape.disguised .json _ .notWord
      | surplus => exact @ProtocolError.OfShape.disguised .json _ .surplus

theorem yamlError_ofShape {failure : Failure} (h : Misshapen .yaml failure) :
    (yamlError failure).OfShape .yaml := by
  simp only [yamlError]
  split
  · exact .schema _
  · rename_i silent
    cases h with
    | yaml path ofShape => exact absurd (speaksOfShape_of_ofShape ofShape path) silent
    | disguised disguised => exact @ProtocolError.OfShape.disguised .yaml _ disguised

/-- A text that holds a value but no protocol is refused for the schema, unless its failure does
    not look like one of the shape. -/
theorem misshapen_refused (held : format.isHeld text) (refused : ofText format text = .error e) :
    parse format text = .error e ∧ e.OfShape format := by
  constructor
  · rw [parse, refused]
    rfl
  · cases format with
    | json =>
        cases read : Json.decode decode text with
        | ok p => simp [ofText, read] at refused
        | error failure =>
            simp only [ofText, read] at refused
            exact Except.error.inj refused ▸ jsonError_ofShape (judged_json held failure read)
    | yaml =>
        cases read : Yaml.decode decode text with
        | ok p => simp [ofText, read] at refused
        | error failure =>
            simp only [ofText, read] at refused
            exact Except.error.inj refused ▸ yamlError_ofShape (judged_yaml held failure read)

/-- A list stands where a step must have its name. -/
theorem unnamedStep_refused :
    Format.yaml.isHeld "phases:\n- steps:\n  - id: [1]\n" ∧
      ∃ e, ofText .yaml "phases:\n- steps:\n  - id: [1]\n" = .error e ∧
        parse .yaml "phases:\n- steps:\n  - id: [1]\n" = .error e ∧ e.OfShape .yaml := by
  have held : Format.yaml.isHeld "phases:\n- steps:\n  - id: [1]\n" := by decide +kernel
  have refused : ofText .yaml "phases:\n- steps:\n  - id: [1]\n" = .error (.schema .inText
      "phases[0].steps[0].id: invalid type: sequence, expected a string") :=
    eq_error_of_errorOf? (by decide +kernel)
  exact ⟨held, _, refused, misshapen_refused held refused⟩

/-- A text that holds a value is refused as if it were not well formed. -/
structure Misread (format : Format) (text words : String) : Prop where
  held : format.isHeld text
  refused : parse format text = .error (.parse format words)

theorem Misread.of_errorOf? {words : String} (h : format.isHeld text ∧
    errorOf? (parse format text) = some (.parse format words)) : Misread format text words :=
  ⟨h.1, eq_error_of_errorOf? h.2⟩

/-- There is a text for each failure that does not look like one of the shape. A tag stands on a
    scalar or on a list. -/
theorem parse_misread :
    Misread .json "\x7b\"parameters\":[\x7b\"type\":5\x7d]\x7d" "expected value" ∧
    Misread .json "\x7b\"parameters\":[[\"a\",\"int\",\"m\",1,2,3,4]]\x7d"
      "trailing characters" ∧
    Misread .yaml "phases:\n- steps:\n  - sequence: 4294967296\n"
      "phases[0].steps[0].sequence: invalid value: integer `4294967296`, expected u32" ∧
    Misread .yaml "id: a\n!x id: b\n" "duplicate field `id`" ∧
    Misread .yaml "acceptance_criteria:\n- threshold:\n    value: !x 3\n"
      ("acceptance_criteria[0].threshold.value: " ++
        "untagged and internally tagged enums do not support enum input") ∧
    Misread .yaml "acceptance_criteria:\n- threshold:\n    value: !x [1, 2]\n"
      ("acceptance_criteria[0].threshold.value: " ++
        "untagged and internally tagged enums do not support enum input") :=
  ⟨.of_errorOf? (by decide +kernel), .of_errorOf? (by decide +kernel),
    .of_errorOf? (by decide +kernel), .of_errorOf? (by decide +kernel),
    .of_errorOf? (by decide +kernel), .of_errorOf? (by decide +kernel)⟩

end ProtocolDefinition

end Qualification
