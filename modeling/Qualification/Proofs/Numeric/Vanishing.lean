import Qualification.Proofs.Numeric.Largest
import Qualification.Proofs.Numeric.Operation

/-! # Differences that vanish

A reading less itself is a zero, or not a number if it is infinite. What is computed from such
differences alone is again a zero or not a number, and adding them to a reading does not move it.
What is computed from an infinite reading is not finite.
-/

namespace Qualification.Binary64

open Float.Model Float.Model.UnpackedFloat

variable {x y z : Float} {u v : UnpackedFloat}

/-- A zero, or not a number. -/
inductive Void : UnpackedFloat → Prop where
  | notANumber : Void .notANumber
  | zero (s : Sign) : Void (.zero s)

theorem Void.add (hu : Void u) (hv : Void v) : Void (u.add .binary64 v) := by
  cases hu with
  | notANumber => exact .notANumber
  | zero s =>
      cases hv with
      | notANumber => exact .notANumber
      | zero t =>
          rw [UnpackedFloat.add]
          split <;> exact .zero _

theorem Void.sub (hu : Void u) (hv : Void v) : Void (u.sub .binary64 v) := by
  cases hu with
  | notANumber => exact .notANumber
  | zero s =>
      cases hv with
      | notANumber => exact .notANumber
      | zero t =>
          rw [UnpackedFloat.sub]
          split <;> exact .zero _

theorem Void.mul_left (hv : Void v) (u : UnpackedFloat) : Void (u.mul .binary64 v) := by
  cases hv with
  | notANumber => cases u <;> exact .notANumber
  | zero t =>
      cases u with
      | notANumber | infinity => exact .notANumber
      | zero s | finite s => exact .zero _

theorem Void.mul_right (hu : Void u) (v : UnpackedFloat) : Void (u.mul .binary64 v) := by
  cases hu with
  | notANumber => exact .notANumber
  | zero t =>
      cases v with
      | notANumber | infinity => exact .notANumber
      | zero s | finite s => exact .zero _

theorem Void.div (hu : Void u) (v : UnpackedFloat) : Void (u.div .binary64 v) := by
  cases hu with
  | notANumber => exact .notANumber
  | zero t =>
      cases v with
      | notANumber | zero => exact .notANumber
      | infinity s | finite s => exact .zero _

theorem Void.abs (hu : Void u) : Void u.abs := by
  cases hu with
  | notANumber => exact .notANumber
  | zero => exact .zero _

theorem Void.sqrt (hu : Void u) : Void (u.sqrt .binary64) := by
  cases hu with
  | notANumber => exact .notANumber
  | zero => exact .zero _

theorem void_sub_self (u : UnpackedFloat) : Void (u.sub .binary64 u) := by
  cases u with
  | notANumber => exact .notANumber
  | infinity s => cases s <;> exact .notANumber
  | zero s => exact (Void.zero s).sub (.zero s)
  | finite s m e positive =>
      simp only [UnpackedFloat.sub, Int.sub_self]
      exact .zero _

/-- A reading that is a zero, or not a number. -/
def Vanishes (x : Float) : Prop :=
  Void x.toModel.unpack

theorem vanishes_pack (h : Void u) : Vanishes (.ofModel (.pack u)) := by
  cases h with
  | notANumber => exact .notANumber
  | zero s => cases s <;> exact .zero _

theorem Vanishes.add (hx : Vanishes x) (hy : Vanishes y) : Vanishes (x + y) :=
  vanishes_pack (Void.add hx hy)

theorem Vanishes.sub (hx : Vanishes x) (hy : Vanishes y) : Vanishes (x - y) :=
  vanishes_pack (Void.sub hx hy)

theorem Vanishes.mul_left (hy : Vanishes y) (x : Float) : Vanishes (x * y) :=
  vanishes_pack (Void.mul_left hy _)

theorem Vanishes.mul_right (hx : Vanishes x) (y : Float) : Vanishes (x * y) :=
  vanishes_pack (Void.mul_right hx _)

theorem Vanishes.div (hx : Vanishes x) (y : Float) : Vanishes (x / y) :=
  vanishes_pack (Void.div hx _)

theorem Vanishes.abs (hx : Vanishes x) : Vanishes x.abs :=
  vanishes_pack (Void.abs hx)

theorem Vanishes.sqrt (hx : Vanishes x) : Vanishes x.sqrt :=
  vanishes_pack (Void.sqrt hx)

theorem vanishes_sub_self (x : Float) : Vanishes (x - x) :=
  vanishes_pack (void_sub_self _)

theorem vanishes_iff : Vanishes x ↔ ¬ IsNumber x ∨ magnitude x = 0 := by
  have unpacked := unpacked x
  have below := magnitude_lt x
  rw [Vanishes, IsNumber]
  generalize x.toModel.unpack = u at unpacked
  cases unpacked with
  | infinity all none => exact iff_of_false (by rintro ⟨⟩) (by omega)
  | notANumber all some => exact iff_of_true .notANumber (by omega)
  | zero none none' => exact iff_of_true (.zero _) (by omega)
  | subnormal positive none isFraction => exact iff_of_false (by rintro ⟨⟩) (by omega)
  | normal positive some notAll => exact iff_of_false (by rintro ⟨⟩) (by omega)

theorem Vanishes.beq_zero (hx : Vanishes x) (number : IsNumber x) : x == 0.0 := by
  have none := (vanishes_iff.mp hx).resolve_left (not_not.mpr number)
  rw [beq_iff_level number isNumber_zero, level, level, none, zero_spec.2]
  split <;> split <;> rfl

theorem unpack_of_not_isNumber (notNumber : ¬ IsNumber x) :
    x.toModel.unpack = .notANumber :=
  UnpackedFloat.isNaN_iff.mp (isNaN_iff.mpr notNumber)

/-- The second reading is the first one, up to the sign of a zero, or not a number. -/
def Near (x y : Float) : Prop :=
  ¬ IsNumber y ∨ y = x ∨ magnitude x = 0 ∧ magnitude y = 0

theorem Near.trans (first : Near x y) (next : Near y z) : Near x z := by
  rcases next with notNumber | rfl | ⟨zero, zero'⟩
  · exact .inl notNumber
  · exact first
  · rcases first with notNumber | rfl | ⟨zero'', _⟩
    · exact absurd (show magnitude y ≤ _ by omega) notNumber
    · exact .inr (.inr ⟨zero, zero'⟩)
    · exact .inr (.inr ⟨zero'', zero'⟩)

/-- The second is the first, another zero if that is one, or not a number. -/
inductive Stays : UnpackedFloat → UnpackedFloat → Prop where
  | notANumber (u : UnpackedFloat) : Stays u .notANumber
  | same (u : UnpackedFloat) : Stays u u
  | zero (s t : Sign) : Stays (.zero s) (.zero t)

theorem Void.stays_add (hv : Void v) (u : UnpackedFloat) : Stays u (u.add .binary64 v) := by
  cases hv with
  | notANumber => cases u <;> exact .notANumber _
  | zero t =>
      cases u with
      | notANumber | infinity | finite => exact .same _
      | zero s =>
          rw [UnpackedFloat.add]
          split <;> exact .zero _ _

theorem Void.stays_sub (hv : Void v) (u : UnpackedFloat) : Stays u (u.sub .binary64 v) := by
  cases hv with
  | notANumber => cases u <;> exact .notANumber _
  | zero t =>
      cases u with
      | notANumber | infinity | finite => exact .same _
      | zero s =>
          rw [UnpackedFloat.sub]
          split <;> exact .zero _ _

theorem not_isNumber_pack : ¬ IsNumber (.ofModel (.pack .notANumber)) := by
  unfold IsNumber
  decide +kernel

theorem near_pack (h : Stays x.toModel.unpack v) : Near x (.ofModel (.pack v)) := by
  have same := pack_unpack x
  generalize x.toModel.unpack = u at h same
  cases h with
  | notANumber => exact .inl not_isNumber_pack
  | same => exact .inr (.inl same)
  | zero s t =>
      have none : magnitude (.ofModel (.pack (.zero t))) = 0 := by
        cases t <;> decide +kernel
      have none' : magnitude x = 0 := by
        rw [← same]
        cases s <;> decide +kernel
      exact .inr (.inr ⟨none', none⟩)

theorem Vanishes.near_add (hy : Vanishes y) (x : Float) : Near x (x + y) :=
  near_pack (Void.stays_add hy _)

theorem Vanishes.near_sub (hy : Vanishes y) (x : Float) : Near x (x - y) :=
  near_pack (Void.stays_sub hy _)

/-- Sums start from a zero that no reading is moved by. -/
theorem negZero_add (x : Float) : -0.0 + x = x := by
  have same := pack_unpack x
  change Float.ofModel (.pack (UnpackedFloat.add .binary64 (.zero .negative) x.toModel.unpack)) = x
  generalize x.toModel.unpack = u at same ⊢
  rw [← same]
  cases u with
  | zero s => cases s <;> rfl
  | notANumber | infinity | finite => rfl

/-- Readings that are near the same one have no distance. -/
theorem Near.vanishes_sub (hy : Near x y) (hz : Near x z) : Vanishes (y - z) := by
  rcases hy with notNumber | rfl | ⟨none, none'⟩
  · exact vanishes_pack (by rw [unpack_of_not_isNumber notNumber]; exact .notANumber)
  · rcases hz with notNumber | rfl | ⟨none, none'⟩
    · exact vanishes_pack (by
        rw [unpack_of_not_isNumber notNumber]
        cases y.toModel.unpack <;> exact .notANumber)
    · exact vanishes_sub_self _
    · exact .sub (vanishes_iff.mpr (.inr none)) (vanishes_iff.mpr (.inr none'))
  · refine .sub (vanishes_iff.mpr (.inr none')) (vanishes_iff.mpr ?_)
    rcases hz with notNumber | rfl | ⟨_, none''⟩
    · exact .inl notNumber
    · exact .inr none
    · exact .inr none''

theorem Near.not_lt (h : Near x y) : ¬ x < y ∧ ¬ y < x := by
  rcases h with notNumber | rfl | ⟨none, none'⟩
  · exact ⟨fun less => notNumber (isNumber_of_le (le_of_lt less)).2,
      fun less => notNumber (isNumber_of_le (le_of_lt less)).1⟩
  · have irreflexive : ¬ y < y := fun less => not_lt_of_le (le_of_lt less) less
    exact ⟨irreflexive, irreflexive⟩
  · have number : IsNumber x := by rw [IsNumber, none]; exact Nat.zero_le _
    have number' : IsNumber y := by rw [IsNumber, none']; exact Nat.zero_le _
    have zero : level x = level y := by
      rw [level, level, none, none']
      split <;> split <;> rfl
    rw [lt_iff_level number number', lt_iff_level number' number, zero]
    exact ⟨Int.lt_irrefl _, Int.lt_irrefl _⟩

/-- An infinity, or not a number. -/
inductive Strays : UnpackedFloat → Prop where
  | notANumber : Strays .notANumber
  | infinity (s : Sign) : Strays (.infinity s)

theorem Strays.add (hu : Strays u) (v : UnpackedFloat) : Strays (u.add .binary64 v) := by
  cases hu with
  | notANumber => exact .notANumber
  | infinity s =>
      cases v with
      | notANumber => exact .notANumber
      | zero | finite => exact .infinity s
      | infinity t =>
          rw [UnpackedFloat.add]
          split
          · exact .infinity s
          · exact .notANumber

theorem Strays.sub (hv : Strays v) (u : UnpackedFloat) : Strays (u.sub .binary64 v) := by
  cases hv with
  | notANumber => cases u <;> exact .notANumber
  | infinity t =>
      cases u with
      | notANumber => exact .notANumber
      | zero | finite => exact .infinity (-t)
      | infinity s =>
          rw [UnpackedFloat.sub]
          split
          · exact .infinity s
          · exact .notANumber

theorem Strays.mul (hv : Strays v) (u : UnpackedFloat) : Strays (u.mul .binary64 v) := by
  cases hv with
  | notANumber => cases u <;> exact .notANumber
  | infinity t =>
      cases u with
      | notANumber | zero => exact .notANumber
      | infinity s | finite s => exact .infinity (s * t)

theorem Strays.div (hu : Strays u) (v : UnpackedFloat) : Strays (u.div .binary64 v) := by
  cases hu with
  | notANumber => exact .notANumber
  | infinity s =>
      cases v with
      | notANumber | infinity => exact .notANumber
      | zero t | finite t => exact .infinity (s / t)

theorem Strays.abs (hu : Strays u) : Strays u.abs := by
  cases hu with
  | notANumber => exact .notANumber
  | infinity => exact .infinity _

theorem Strays.div_eq (hu : Strays u) (hv : Strays v) : u.div .binary64 v = .notANumber := by
  cases hu <;> cases hv <;> rfl

theorem strays_unpack (h : ¬ x.isFinite) : Strays x.toModel.unpack := by
  change ¬ x.toModel.unpack.isFinite at h
  generalize x.toModel.unpack = u at h
  cases u with
  | notANumber => exact .notANumber
  | infinity s => exact .infinity s
  | zero | finite => exact absurd rfl h

theorem not_isFinite_pack (h : Strays u) : ¬ (Float.ofModel (.pack u)).isFinite := by
  cases h with
  | notANumber => decide +kernel
  | infinity s => cases s <;> decide +kernel

theorem not_isFinite_add (hx : ¬ x.isFinite) (y : Float) : ¬ (x + y).isFinite :=
  not_isFinite_pack ((strays_unpack hx).add _)

theorem not_isFinite_sub (hy : ¬ y.isFinite) (x : Float) : ¬ (x - y).isFinite :=
  not_isFinite_pack ((strays_unpack hy).sub _)

theorem not_isFinite_mul (hy : ¬ y.isFinite) (x : Float) : ¬ (x * y).isFinite :=
  not_isFinite_pack ((strays_unpack hy).mul _)

theorem not_isFinite_div (hx : ¬ x.isFinite) (y : Float) : ¬ (x / y).isFinite :=
  not_isFinite_pack ((strays_unpack hx).div _)

theorem not_isFinite_abs (hx : ¬ x.isFinite) : ¬ x.abs.isFinite :=
  not_isFinite_pack (strays_unpack hx).abs

theorem not_isNumber_div (hx : ¬ x.isFinite) (hy : ¬ y.isFinite) : ¬ IsNumber (x / y) := by
  have quotient := (strays_unpack hx).div_eq (strays_unpack hy)
  change ¬ IsNumber (.ofModel (.pack (UnpackedFloat.div .binary64 _ _)))
  rw [quotient]
  exact not_isNumber_pack

theorem not_isNumber_div_right (hy : ¬ IsNumber y) (x : Float) : ¬ IsNumber (x / y) := by
  change ¬ IsNumber (.ofModel (.pack (UnpackedFloat.div .binary64 x.toModel.unpack
    y.toModel.unpack)))
  rw [unpack_of_not_isNumber hy]
  cases x.toModel.unpack <;> exact not_isNumber_pack

theorem not_isNumber_abs (hx : ¬ IsNumber x) : ¬ IsNumber x.abs := by
  change ¬ IsNumber (.ofModel (.pack x.toModel.unpack.abs))
  rw [unpack_of_not_isNumber hx]
  exact not_isNumber_pack

end Qualification.Binary64
