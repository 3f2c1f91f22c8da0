import Qualification.Acceptance.Codec
import Qualification.Proofs.Document.Word
import Qualification.Proofs.Json.Arrangement

/-! # Verdicts in documents

A measured value is read back from its document if it is a finite reading or a value that
its text gives back, and so is the list of the verdicts on such values.
-/

namespace Qualification

open Document Json

variable {depth : Nat} {f : Json → Json}

namespace MeasuredValue

/-- A value of at most so many levels that its text gives back. -/
def Storable (depth : Nat) : MeasuredValue → Prop
  | numeric x => x.isFinite
  | json v => v.Storable depth
  | _ => True

variable {v : MeasuredValue}

theorem Kind.find_name (k : Kind) : Kind.words.find? k.name = some k := by
  cases k <;> decide

theorem content_storable (storable : v.Storable depth) : Json.Storable depth v.content := by
  cases v with
  | numeric x =>
      have finite : x.isFinite := storable
      rw [content, ofFloat, if_pos finite]
      exact .float finite
  | text s => exact .text s
  | boolean b => exact .bool b
  | json v => exact storable

theorem gives_content (storable : v.Storable depth) :
    Gives depth (decodeContent v.kind) (.ofJson v.content) v := by
  intro place deep
  cases v with
  | numeric x =>
      have finite : x.isFinite := storable
      rw [content, ofFloat, if_pos finite]
      rfl
  | text s => rfl
  | boolean b => rfl
  | json v =>
      have read := Json.Storable.gives storable place deep
      simp only [kind, decodeContent, content, read]
      rfl

theorem toJson_storable (storable : v.Storable depth) : Json.Storable (depth + 1) v.toJson :=
  storable_fields ["kind", "value"] (by decide) rfl
    (by simp [Json.Storable.text, content_storable storable])

/-- A value is read back from its document, however documents are arranged. -/
theorem carries (hf : Arranges f) (storable : v.Storable depth) :
    Carries (depth + 1) decode (f v.toJson) v := by
  have document := toJson_storable storable
  rw [hf.storable document]
  refine ⟨document.writable, nofun, ?_⟩
  exact Tagged.Adjacent.gives (t := shape) (by decide) (.word (Kind.find_name v.kind))
    (gives_content storable)

end MeasuredValue

namespace Evaluation

variable {e : Evaluation}

/-- A verdict that its document gives back. -/
def Storable (depth : Nat) (e : Evaluation) : Prop :=
  ∀ v, e.value = some v → v.Storable depth

theorem carries (hf : Arranges f) (storable : e.Storable depth) :
    Carries (depth + 2) decode (f e.toJson) e :=
  Record.Fills.map Evaluation.mk (.field (.text e.criterionId))
    |>.seq (.field (.text e.parameter))
    |>.seq (.field (.word e.severity.find_text))
    |>.seq (.nullable fun b _ => .bool b)
    |>.seq (.nullable fun v isValue => MeasuredValue.carries hf (storable v isValue))
    |>.seq (.nullable fun s _ => .text s)
    |>.arranged hf (by decide)
      (by simp [hf.text, hf.ofOption, hf.comp_bool, hf.ofText?, Severity.toJson,
        Function.comp_def]) "AcceptanceEvaluation"

/-- The verdicts of a run are read back from their column. -/
theorem ofColumn_list {es : List Evaluation} (storable : ∀ e ∈ es, e.Storable depth)
    (enough : depth + 3 ≤ levels) :
    Json.ofColumn? (Decoder.list decode) (Json.ofList toJson es).compact = some es := by
  have document := Carries.list fun e member => carries arranges_id (storable e member)
  exact ofColumn_compact document.writable (document.gives.mono enough)

end Evaluation

end Qualification
