import Qualification.Protocol.Codec
import Qualification.QualityControl.Finding
import Qualification.Run.Basic

/-! # Words read back

Each case of a type that is written as words is found again under the word that is written
for it.
-/

namespace Qualification

open Document

theorem RunStatus.ofText_text (s : RunStatus) : ofText? s.text = some s := by
  cases s <;> decide

theorem PhaseStatus.ofText_text (s : PhaseStatus) : ofText? s.text = some s := by
  cases s <;> decide

theorem StepStatus.ofText_text (s : StepStatus) : ofText? s.text = some s := by
  cases s <;> decide

theorem TestResult.ofText_text (r : TestResult) : ofText? r.text = some r := by
  cases r <;> decide

theorem MeasurementType.ofText_text (t : MeasurementType) : ofText? t.text = some t := by
  cases t <;> decide

theorem QualityFlag.ofText_text (f : QualityFlag) : ofText? f.text = some f := by
  cases f <;> decide

theorem QcCategory.find_text (c : QcCategory) : words.find? c.text = some c := by
  cases c <;> decide

theorem Severity.find_text (s : Severity) : words.find? s.text = some s := by
  cases s <;> decide

theorem ParameterType.find_text (t : ParameterType) : words.find? t.text = some t := by
  cases t <;> decide

theorem Capability.find_text (c : Capability) : words.find? c.text = some c := by
  cases c <;> decide

theorem Operator.find_text (o : Operator) : words.find? o.text = some o := by
  cases o <;> decide

theorem SafetyAction.find_text (a : SafetyAction) : words.find? a.text = some a := by
  cases a <;> decide

theorem LimitDirection.find_text (d : LimitDirection) : words.find? d.text = some d := by
  cases d <;> decide

theorem Screening.find_text (s : Screening) : words.find? s.text = some s := by
  cases s <;> decide

end Qualification
