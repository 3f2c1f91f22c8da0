import Qualification.Proofs.Protocol.Layout

/-! # Versions

Every check of a protocol blames the part that it looks at, so the version is blamed by its own
check alone. That check passes what is written as a version. A version of three numbers in ASCII
digits always is, and nothing else in ASCII characters is; but a digit behind the first one may be
of any script.
-/

namespace Qualification

namespace Validation

/-- What a check refuses is an identity that was there before, or stands at a part of the protocol
    whose path begins with one of the headings. -/
def Blames (headings : List String) (c : Check) : Prop :=
  ∀ e, c = .error e → (∃ kind id scope, e = .duplicate kind id scope) ∨
    ∃ path message, e = .schema (.part path) message ∧
      ∃ heading ∈ headings, heading.toList <+: path.toList

variable {headings more : List String} {c d : Check} {part heading message : String}

theorem blames_ok : Blames headings (.ok ()) :=
  nofun

theorem Blames.both (hc : Blames headings c) (hd : Blames headings d) :
    Blames headings (do c; d) := by
  cases c with
  | error e => exact fun e' same => hc e' same
  | ok => exact hd

theorem blames_require {holds : Bool} (member : heading ∈ headings)
    (begins : heading.toList <+: part.toList) : Blames headings (require holds part message) := by
  unfold require
  split
  · exact blames_ok
  · rintro e same
    exact .inr ⟨part, message, (Except.error.inj same).symm, heading, member, begins⟩

theorem blames_requireText {value : String} (member : heading ∈ headings)
    (begins : heading.toList <+: part.toList) : Blames headings (requireText part value) :=
  blames_require member begins

theorem blames_requireNew (kind : Identified) (id scope : String) (seen : List String) :
    Blames headings (requireNew kind id scope seen) := by
  unfold requireNew
  split
  · rintro e same
    exact .inl ⟨kind, id, scope, (Except.error.inj same).symm⟩
  · exact blames_ok

theorem Blames.mono (h : Blames headings c) (all : ∀ heading ∈ headings, heading ∈ more) :
    Blames more c := by
  intro e same
  obtain twice | ⟨path, message, rfl, heading, member, begins⟩ := h e same
  · exact .inl twice
  · exact .inr ⟨path, message, rfl, heading, all heading member, begins⟩

theorem blames_checkEach {α : Type} {idOf : α → String} {check : Nat → List String → α → Check}
    (each : ∀ index seen a, Blames headings (check index seen a)) (index : Nat)
    (seen : List String) (entries : List α) :
    Blames headings (checkEach idOf check index seen entries) := by
  induction entries generalizing index seen with
  | nil => exact blames_ok
  | cons a rest ih => exact (each index seen a).both (ih _ _)

/-- The path of a part within an entry of a list begins with the list. -/
theorem begins_entry (list : String) (index : Nat) (rest : String) :
    list.toList <+: (entry list index ++ rest).toList := by
  simp only [entry, String.toList_append, List.append_assoc]
  exact List.prefix_append _ _

theorem default_blames (index : Nat) (d : ParameterDef) :
    Blames ["parameters"] (match d.default with
      | none => .ok ()
      | some value => match d.check value with
          | .ok () => .ok ()
          | .error reason =>
              .error (.schema (.part (entry "parameters" index ++ ".default")) reason)) := by
  split
  · exact blames_ok
  · split
    · exact blames_ok
    · rintro e same
      exact .inr ⟨_, _, (Except.error.inj same).symm, _, .head _, begins_entry _ _ _⟩

theorem checkParameter_blames (scope : String) (index : Nat) (seen : List String)
    (d : ParameterDef) : Blames ["parameters"] (checkParameter scope index seen d) := by
  have begins := begins_entry "parameters" index
  refine (blames_requireNew _ _ _ _).both ((blames_requireText (.head _) (begins _)).both ?_)
  dsimp only
  split
  · exact (blames_require (.head _) (by simpa using begins "")).both (default_blames index d)
  · exact default_blames index d

theorem checkStep_blames (begins : heading.toList <+: part.toList) (scope phaseScope : String)
    (ids : List String) (sequences : List Nat) (s : StepDef) :
    Blames [heading] (checkStep scope phaseScope part ids sequences s) := by
  have within (field : String) : heading.toList <+: (part ++ field).toList := by
    rw [String.toList_append]
    exact begins.trans (List.prefix_append _ _)
  refine (blames_requireText (.head _) (within _)).both
    ((blames_requireText (.head _) (within _)).both ((blames_requireNew _ _ _ _).both ?_))
  have duration : Blames [heading] (require (s.durationHours.all isDuration)
      (part ++ ".duration_hours") "must be a non-negative number") :=
    blames_require (.head _) (within _)
  dsimp only
  split
  · rintro e same
    exact .inl ⟨_, _, _, (Except.error.inj same).symm⟩
  · exact duration

theorem checkSteps_blames (begins : heading.toList <+: part.toList) (scope phaseScope : String)
    (index : Nat) (ids : List String) (sequences : List Nat) (steps : List StepDef) :
    Blames [heading] (checkSteps scope phaseScope part index ids sequences steps) := by
  induction steps generalizing index ids sequences with
  | nil => exact blames_ok
  | cons s rest ih =>
      refine (checkStep_blames ?_ _ _ _ _ _).both (ih _ _ _)
      simp only [entry, String.toList_append, List.append_assoc]
      exact begins.trans (List.prefix_append _ _)

theorem checkPhase_blames (scope : String) (index : Nat) (phaseIds stepIds : List String)
    (p : PhaseDef) : Blames ["phases"] (checkPhase scope index phaseIds stepIds p) := by
  have begins := begins_entry "phases" index
  exact (blames_requireText (.head _) (begins _)).both ((blames_requireNew _ _ _ _).both
    ((blames_require (.head _) (begins _)).both
      ((checkSteps_blames (by simpa using begins "") _ _ _ _ _ _).both
        (blames_require (.head _) (begins _)))))

theorem checkPhases_blames (scope : String) (index : Nat) (phaseIds stepIds : List String)
    (phases : List PhaseDef) :
    Blames ["phases"] (checkPhases scope index phaseIds stepIds phases) := by
  induction phases generalizing index phaseIds stepIds with
  | nil => exact blames_ok
  | cons p rest ih => exact (checkPhase_blames _ _ _ _ _).both (ih _ _ _)

theorem checkSpec_blames (scope : String) (index : Nat) (seen : List String)
    (s : MeasurementSpec) : Blames ["measurement_specs"] (checkSpec scope index seen s) := by
  have begins := begins_entry "measurement_specs" index
  exact (blames_requireNew _ _ _ _).both ((blames_requireText (.head _) (begins _)).both
    (blames_require (.head _) (begins _)))

theorem checkThreshold_blames (begins : heading.toList <+: part.toList) (op : Operator)
    (v : ThresholdValue) : Blames [heading] (checkThreshold part op v) := by
  unfold checkThreshold
  split
  · exact blames_require (.head _) begins
  · exact blames_require (.head _) begins
  · exact blames_require (.head _) begins
  · exact blames_require (.head _) begins
  · split
    · exact blames_require (.head _) begins
    · exact blames_ok

theorem checkCriterion_blames (scope : String) (index : Nat) (seen : List String)
    (c : AcceptanceCriterion) :
    Blames ["acceptance_criteria"] (checkCriterion scope index seen c) := by
  have begins (field : String) : "acceptance_criteria".toList <+:
      (entry "acceptance_criteria" index ++ ".threshold" ++ field).toList := by
    rw [String.append_assoc]
    exact begins_entry "acceptance_criteria" index _
  exact (blames_requireNew _ _ _ _).both ((blames_requireText (.head _) (begins _)).both
    (checkThreshold_blames (begins _) _ _))

theorem checkLimits_blames (limits : Dictionary SafetyLimit) :
    Blames ["safety_limits"] (checkLimits limits) := by
  induction limits with
  | nil => exact blames_ok
  | cons e rest ih =>
      refine (blames_require (.head _) ?_).both ih
      simp only [String.toList_append, List.append_assoc]
      exact ⟨['.'] ++ _, rfl⟩

theorem checkQc_blames (qc : QcSettings) : Blames ["qc"] (checkQc "qc" qc) := by
  have begins (field : String) : "qc".toList <+: ("qc" ++ field).toList := by
    rw [String.toList_append]
    exact List.prefix_append _ _
  refine (blames_require (.head _) (begins _)).both ((blames_require (.head _) (begins _)).both
    ((blames_require (.head _) (begins _)).both ((blames_require (.head _) (begins _)).both ?_)))
  unfold checkOutlier
  split
  · exact blames_require (.head _) (begins _)
  · exact blames_require (.head _) (begins _)
  · exact blames_ok

/-- The checks before that of the version, that check, and checks that blame other parts. -/
theorem exists_check_eq (p : ProtocolDefinition) : ∃ rest, Blames ["parameters", "phases",
      "measurement_specs", "acceptance_criteria", "safety_limits", "qc"] rest ∧
    check p = (do
      requireText "id" p.id
      requireText "name" p.name
      requireText "category" p.category
      require (Version.isValid p.version) "version"
        ("'" ++ p.version ++ "' is not a MAJOR.MINOR.PATCH version")
      rest) := by
  refine ⟨_, ?_, rfl⟩
  refine (((blames_checkEach fun index seen d => checkParameter_blames _ index seen d) _ _ _).mono
    (by simp)).both ?_
  refine (blames_require (show "phases" ∈ _ by simp) (List.prefix_refl _)).both ?_
  refine ((checkPhases_blames _ _ _ _ _).mono (by simp)).both ?_
  refine (((blames_checkEach fun index seen s => checkSpec_blames _ index seen s) _ _ _).mono
    (by simp)).both ?_
  refine (((blames_checkEach fun index seen c => checkCriterion_blames _ index seen c) _ _ _).mono
    (by simp)).both ?_
  refine ((checkLimits_blames _).mono (by simp)).both ?_
  split
  · exact (checkQc_blames _).mono (by simp)
  · exact blames_ok

/-- Has the protocol the texts that are looked at before its version? -/
structure Named (p : ProtocolDefinition) : Prop where
  id : ¬ Text.isBlank p.id
  name : ¬ Text.isBlank p.name
  category : ¬ Text.isBlank p.category

/-- A protocol is refused for its version. -/
def VersionRefused (p : ProtocolDefinition) : Prop :=
  check p = .error (.schema (.part "version")
    ("'" ++ p.version ++ "' is not a MAJOR.MINOR.PATCH version"))

theorem versionRefused_iff {p : ProtocolDefinition} (named : Named p) :
    VersionRefused p ↔ ¬ Version.Written p.version := by
  obtain ⟨rest, blames, whole⟩ := exists_check_eq p
  have others : check p = (do
      require (Version.isValid p.version) "version"
        ("'" ++ p.version ++ "' is not a MAJOR.MINOR.PATCH version")
      rest) := by
    rw [whole, requireText_ok.mpr named.id, requireText_ok.mpr named.name,
      requireText_ok.mpr named.category]
    rfl
  rw [VersionRefused, others, ← Version.isValid_iff]
  cases valid : Version.isValid p.version with
  | false => exact iff_of_true rfl nofun
  | true =>
      refine iff_of_false (fun refused => ?_) (by simp)
      obtain ⟨kind, id, scope, twice⟩ | ⟨path, message, same, heading, member, begins⟩ :=
        blames _ refused
      · cases twice
      · cases same
        revert heading
        decide

end Validation

namespace Version

/-- A row of ASCII digits without a leading zero, unless it is zero alone. -/
structure Numeral (digits : List Char) : Prop where
  some : digits ≠ []
  ascii : ∀ c ∈ digits, '0' ≤ c ∧ c ≤ '9'
  leading : digits.head? = Option.some '0' → digits = ['0']

/-- Three rows of ASCII digits, joined by single points. -/
def Release (s : String) : Prop :=
  ∃ major minor patch : List Char, Numeral major ∧ Numeral minor ∧ Numeral patch ∧
    s.toList = major ++ '.' :: (minor ++ '.' :: patch)

def IsAscii (cs : List Char) : Prop :=
  ∀ c ∈ cs, c.toNat < 128

theorem digit_bounds {c : Char} : '0' ≤ c ∧ c ≤ '9' ↔ 48 ≤ c.toNat ∧ c.toNat ≤ 57 :=
  Iff.rfl

theorem isDecimalDigit_of_digit {c : Char} (digit : '0' ≤ c ∧ c ≤ '9') : Text.isDecimalDigit c := by
  rw [digit_bounds] at digit
  rw [Text.isDecimalDigit, List.any_eq_true]
  exact ⟨(0x30, 0x39), .head _, by simpa using digit⟩

/-- The only decimal digits among the ASCII characters are the usual ones. -/
theorem digit_of_isDecimalDigit {c : Char} (digit : Text.isDecimalDigit c) (ascii : c.toNat < 128) :
    '0' ≤ c ∧ c ≤ '9' := by
  have above : ∀ r ∈ Text.decimalDigitRanges, r = (0x30, 0x39) ∨ 128 ≤ r.1 := by decide
  obtain ⟨r, member, inside⟩ := List.any_eq_true.mp digit
  rw [Bool.and_eq_true, decide_eq_true_eq, decide_eq_true_eq] at inside
  rw [digit_bounds]
  rcases above r member with rfl | beyond
  · exact inside
  · omega

theorem one_le_of_ne_zero {c : Char} (digit : '0' ≤ c) (some : c ≠ '0') : '1' ≤ c := by
  have zero : 48 ≤ c.toNat := digit
  have other : c.toNat ≠ 48 := fun same => some (Char.toNat_inj.mp same)
  exact show 49 ≤ c.toNat by omega

theorem Numeral.number {cs : List Char} (h : Numeral cs) : Number cs := by
  cases cs with
  | nil => exact absurd rfl h.some
  | cons first rest =>
      obtain ⟨digit, digits⟩ := List.forall_mem_cons.mp h.ascii
      by_cases zero : first = '0'
      · rw [h.leading (congrArg Option.some zero)]
        exact .zero
      · exact .row (one_le_of_ne_zero digit.1 zero) digit.2
          fun c member => isDecimalDigit_of_digit (digits c member)

theorem Number.numeral {cs : List Char} (h : Number cs) (ascii : IsAscii cs) : Numeral cs := by
  cases h with
  | zero => exact ⟨by decide, by simp, fun _ => rfl⟩
  | @row first rest low high digits =>
      obtain ⟨-, ascii⟩ := List.forall_mem_cons.mp ascii
      refine ⟨nofun, List.forall_mem_cons.mpr ⟨⟨?_, high⟩, ?_⟩, fun leading => ?_⟩
      · exact show 48 ≤ first.toNat from Nat.le_of_succ_le low
      · exact fun c member => digit_of_isDecimalDigit (digits c member) (ascii c member)
      · rw [Option.some.inj leading] at low
        exact absurd low (by decide)

theorem Numeral.isAscii {cs : List Char} (h : Numeral cs) : IsAscii cs := fun c member => by
  have digit := digit_bounds.mp (h.ascii c member)
  omega

theorem isAscii_append {cs ds : List Char} : IsAscii (cs ++ ds) ↔ IsAscii cs ∧ IsAscii ds :=
  List.forall_mem_append

theorem isAscii_joined {cs ds : List Char} :
    IsAscii (cs ++ '.' :: ds) ↔ IsAscii cs ∧ IsAscii ds := by
  rw [isAscii_append, IsAscii, IsAscii, IsAscii, List.forall_mem_cons,
    and_iff_right (by decide : '.'.toNat < 128)]

/-- What is released is what is written in ASCII characters. -/
theorem release_iff {s : String} : Release s ↔ Written s ∧ IsAscii s.toList := by
  constructor
  · rintro ⟨major, minor, patch, isMajor, isMinor, isPatch, written⟩
    rw [written, isAscii_joined, isAscii_joined]
    exact ⟨⟨major, minor, patch, isMajor.number, isMinor.number, isPatch.number, written⟩,
      isMajor.isAscii, isMinor.isAscii, isPatch.isAscii⟩
  · rintro ⟨⟨major, minor, patch, isMajor, isMinor, isPatch, written⟩, ascii⟩
    rw [written, isAscii_joined, isAscii_joined] at ascii
    exact ⟨major, minor, patch, isMajor.numeral ascii.1, isMinor.numeral ascii.2.1,
      isPatch.numeral ascii.2.2, written⟩

end Version

namespace Validation

/-- A version passes its check if it is written as one. Such a text is a release just if it has
    ASCII characters only. -/
theorem version_passes {p : ProtocolDefinition} (named : Named p) :
    (¬ VersionRefused p ↔ Version.Written p.version) ∧
      (Version.Release p.version ↔
        ¬ VersionRefused p ∧ Version.IsAscii p.version.toList) := by
  have passes : ¬ VersionRefused p ↔ Version.Written p.version := by
    rw [versionRefused_iff named, not_not]
  exact ⟨passes, by rw [Version.release_iff, passes]⟩

/-- A protocol of a given version. -/
def versioned (version : String) : ProtocolDefinition :=
  { ProtocolDefinition.twoPhases with version := version }

theorem versioned_named (version : String) : Named (versioned version) where
  id := show ¬ Text.isBlank ProtocolDefinition.twoPhases.id by decide +kernel
  name := show ¬ Text.isBlank ProtocolDefinition.twoPhases.name by decide +kernel
  category := show ¬ Text.isBlank ProtocolDefinition.twoPhases.category by decide +kernel

theorem releases_pass : Named (versioned "1.20.3") ∧ Version.Release "1.20.3" ∧
    ¬ VersionRefused (versioned "1.20.3") := by
  have release : Version.Release "1.20.3" :=
    ⟨['1'], ['2', '0'], ['3'], ⟨by decide, by simp, by decide⟩, ⟨by decide, by simp, by decide⟩,
      ⟨by decide, by simp, by decide⟩, by decide⟩
  have named := versioned_named "1.20.3"
  exact ⟨named, release, ((version_passes named).2.mp release).1⟩

example : VersionRefused (versioned "1.020.3") := by cbv

/-- The last digit of the patch number is an Arabic one. -/
theorem foreignDigit_passes : check (versioned "1.0.1\u0663") = .ok () ∧
    ¬ Version.Release "1.0.1\u0663" := by
  refine ⟨by cbv, fun release => ?_⟩
  have ascii := (Version.release_iff.mp release).2 '\u0663' (by decide)
  exact absurd ascii (by decide)

end Validation

end Qualification
