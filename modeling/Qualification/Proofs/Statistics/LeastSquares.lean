import Mathlib.Algebra.BigOperators.Group.List.Basic
import Mathlib.Algebra.BigOperators.Ring.List
import Mathlib.Algebra.Order.BigOperators.Group.List
import Mathlib.Tactic.FieldSimp
import Mathlib.Tactic.Linarith
import Mathlib.Tactic.Positivity
import Mathlib.Tactic.Ring
import Qualification.Proofs.Statistics.Units
import Qualification.Statistics.Regression

/-! # The line of least squares

Read over exact rationals, the residuals of a fitted line add up to nothing, also if each is taken
times the distance of its place from the mean place. So what another line leaves over is what the
fitted line leaves over and two squares, one for each way in which the lines differ. The level line
through the mean is such another line, and the share of the spread that is explained compares the
two.
-/

namespace Qualification.Statistics

open Scalar

variable {a b centre intercept slope residual total : ℚ} {pairs : List (ℚ × ℚ)} {xs : List ℚ}

/-- What a line leaves over of paired values: the sum of their squared residuals. -/
def misfit (slope intercept : ℚ) (pairs : List (ℚ × ℚ)) : ℚ :=
  (pairs.map fun p => (p.2 - (slope * p.1 + intercept)) ^ 2).sum

/-- Every pair lies on the line. -/
def OnLine (slope intercept : ℚ) (pairs : List (ℚ × ℚ)) : Prop :=
  ∀ p ∈ pairs, p.2 = slope * p.1 + intercept

/-- Two of the pairs stand at different places. -/
def Spread (pairs : List (ℚ × ℚ)) : Prop :=
  ∃ p ∈ pairs, ∃ q ∈ pairs, p.1 ≠ q.1

/-- What a fit of paired values by least squares is. -/
structure LeastSquares (pairs : List (ℚ × ℚ)) (fit : Regression ℚ) : Prop where
  least : ∀ a b, misfit fit.slope fit.intercept pairs ≤ misfit a b pairs
  /-- Every line that leaves over as little is the fitted one. -/
  unique : ∀ a b, misfit a b pairs ≤ misfit fit.slope fit.intercept pairs →
    a = fit.slope ∧ b = fit.intercept
  bounds : 0 ≤ fit.rSquared ∧ fit.rSquared ≤ 1
  whole : fit.rSquared = 1 ↔ OnLine fit.slope fit.intercept pairs
  recovers : ∀ a b, OnLine a b pairs → fit = ⟨a, b, 1⟩
  constant : ∀ c, (∀ p ∈ pairs, p.2 = c) → fit = ⟨0, c, 1⟩

section

variable {ι : Type} {f : ι → ℚ} {entries : List ι}

theorem sum_squares_nonneg (f : ι → ℚ) (entries : List ι) :
    0 ≤ (entries.map fun i => f i ^ 2).sum := by
  refine List.sum_nonneg fun y member => ?_
  obtain ⟨i, -, rfl⟩ := List.mem_map.mp member
  exact sq_nonneg (f i)

theorem sum_squares_eq_zero : (entries.map fun i => f i ^ 2).sum = 0 ↔ ∀ i ∈ entries, f i = 0 := by
  induction entries with
  | nil => simp
  | cons i rest ih =>
      rw [List.map_cons, List.sum_cons, List.forall_mem_cons, ← ih,
        add_eq_zero_iff_of_nonneg (sq_nonneg (f i)) (sum_squares_nonneg f rest), sq_eq_zero_iff]

theorem sum_sub_mul (f g : ι → ℚ) (c : ℚ) (entries : List ι) :
    (entries.map fun i => f i - c * g i).sum = (entries.map f).sum - c * (entries.map g).sum := by
  induction entries with
  | nil => simp
  | cons i rest ih =>
      simp only [List.map_cons, List.sum_cons, ih]
      ring

/-- Squares of sums of three terms, where any two terms have no product in sum. -/
theorem sum_squares_add {e u : ι → ℚ} (balanced : (entries.map e).sum = 0)
    (centred : (entries.map u).sum = 0) (apart : (entries.map fun i => e i * u i).sum = 0)
    (c d : ℚ) : (entries.map fun i => (e i + c * u i + d) ^ 2).sum =
      (entries.map fun i => e i ^ 2).sum + c ^ 2 * (entries.map fun i => u i ^ 2).sum +
        entries.length * d ^ 2 := by
  have expanded : (entries.map fun i => (e i + c * u i + d) ^ 2).sum =
      (entries.map fun i => e i ^ 2).sum + c ^ 2 * (entries.map fun i => u i ^ 2).sum +
        entries.length * d ^ 2 + 2 * c * (entries.map fun i => e i * u i).sum +
          2 * d * (entries.map e).sum + 2 * c * d * (entries.map u).sum := by
    clear balanced centred apart
    induction entries with
    | nil => simp
    | cons i rest ih =>
        simp only [List.map_cons, List.sum_cons, List.length_cons, ih]
        push_cast
        ring
  rw [expanded, balanced, centred, apart]
  ring

end

theorem misfit_nonneg (slope intercept : ℚ) (pairs : List (ℚ × ℚ)) :
    0 ≤ misfit slope intercept pairs :=
  sum_squares_nonneg _ pairs

theorem misfit_eq_zero : misfit slope intercept pairs = 0 ↔ OnLine slope intercept pairs := by
  simp only [misfit, sum_squares_eq_zero, sub_eq_zero, OnLine]

/-- The residuals of a line add up to nothing, by themselves and each times the distance of its
    place from the mean place. -/
structure Balanced (slope intercept centre : ℚ) (pairs : List (ℚ × ℚ)) : Prop where
  residuals : (pairs.map fun p => p.2 - (slope * p.1 + intercept)).sum = 0
  distances : (pairs.map fun p => p.1 - centre).sum = 0
  moments : (pairs.map fun p => (p.2 - (slope * p.1 + intercept)) * (p.1 - centre)).sum = 0

/-- How widely the places of pairs are scattered. -/
def scatter (centre : ℚ) (pairs : List (ℚ × ℚ)) : ℚ :=
  (pairs.map fun p => (p.1 - centre) ^ 2).sum

theorem Balanced.misfit_eq (h : Balanced slope intercept centre pairs) (a b : ℚ) :
    misfit a b pairs = misfit slope intercept pairs + (slope - a) ^ 2 * scatter centre pairs +
      pairs.length * ((slope - a) * centre + intercept - b) ^ 2 := by
  have squares := sum_squares_add h.residuals h.distances h.moments (slope - a)
    ((slope - a) * centre + intercept - b)
  have residual (p : ℚ × ℚ) : p.2 - (slope * p.1 + intercept) + (slope - a) * (p.1 - centre) +
      ((slope - a) * centre + intercept - b) = p.2 - (a * p.1 + b) := by ring
  simp only [residual] at squares
  exact squares

theorem Balanced.least (h : Balanced slope intercept centre pairs) (a b : ℚ) :
    misfit slope intercept pairs ≤ misfit a b pairs := by
  have scattered : 0 ≤ scatter centre pairs := sum_squares_nonneg _ pairs
  rw [h.misfit_eq a b, add_assoc]
  exact le_add_of_nonneg_right (by positivity)

/-- With places apart, a line that leaves over as little has the same slope, and then the same
    height at the mean place. -/
theorem Balanced.unique (h : Balanced slope intercept centre pairs)
    (scattered : 0 < scatter centre pairs)
    (most : misfit a b pairs ≤ misfit slope intercept pairs) : a = slope ∧ b = intercept := by
  have entries : 0 < (pairs.length : ℚ) := by
    rw [Nat.cast_pos, List.length_pos_iff]
    rintro rfl
    exact lt_irrefl 0 scattered
  rw [h.misfit_eq a b, add_assoc, add_le_iff_nonpos_right] at most
  have slopes : 0 ≤ (slope - a) ^ 2 * scatter centre pairs := by positivity
  have heights : 0 ≤ pairs.length * ((slope - a) * centre + intercept - b) ^ 2 := by positivity
  have no_slope : (slope - a) ^ 2 * scatter centre pairs = 0 := by linarith
  have no_height : pairs.length * ((slope - a) * centre + intercept - b) ^ 2 = 0 := by linarith
  have same : slope = a := by
    rwa [mul_eq_zero, or_iff_left scattered.ne', sq_eq_zero_iff, sub_eq_zero] at no_slope
  rw [mul_eq_zero, or_iff_right entries.ne', sq_eq_zero_iff, same, sub_self, zero_mul, zero_add,
    sub_eq_zero] at no_height
  exact ⟨same.symm, no_height.symm⟩

theorem explained_eq (residual total : ℚ) : explained residual total =
    if total = 0 then if residual = 0 then 1 else 0 else 1 - residual / total := by
  have zero : (0.0 : ℚ) = 0 := by norm_num
  have one : (1.0 : ℚ) = 1 := by norm_num
  change (if decide (total = (0.0 : ℚ)) = true then
    if decide (residual = (0.0 : ℚ)) = true then (1.0 : ℚ) else (0.0 : ℚ)
    else (1.0 : ℚ) - residual / total) = _
  simp only [zero, one, decide_eq_true_eq]

theorem explained_bounds (nonneg : 0 ≤ residual) (most : residual ≤ total) :
    0 ≤ explained residual total ∧ explained residual total ≤ 1 := by
  rw [explained_eq]
  split
  · split <;> norm_num
  · rename_i nonzero
    have positive : 0 < total := lt_of_le_of_ne (nonneg.trans most) (Ne.symm nonzero)
    exact ⟨sub_nonneg.mpr ((div_le_one positive).mpr most),
      sub_le_self 1 (div_nonneg nonneg positive.le)⟩

theorem explained_eq_one (nonneg : 0 ≤ residual) (most : residual ≤ total) :
    explained residual total = 1 ↔ residual = 0 := by
  rw [explained_eq]
  split
  · rename_i zero
    have nothing : residual = 0 := le_antisymm (most.trans zero.le) nonneg
    simp only [nothing, if_true]
  · rename_i nonzero
    rw [sub_eq_self, div_eq_zero_iff, or_iff_left nonzero]

theorem sum_eq (xs : List ℚ) : Scalar.sum xs = xs.sum :=
  List.sum_eq_foldl.symm

theorem mean_eq (some : xs ≠ []) : mean xs = Option.some (xs.sum / xs.length) := by
  rw [mean, sum_eq, if_neg (by simpa using some)]
  rfl

theorem sum_sub_mean (f : ℚ × ℚ → ℚ) (some : pairs ≠ []) :
    (pairs.map fun p => f p - (pairs.map f).sum / pairs.length).sum = 0 := by
  have entries : (pairs.length : ℚ) ≠ 0 := by
    rwa [Nat.cast_ne_zero, Ne, List.length_eq_zero_iff]
  have parts := sum_sub_mul f (fun _ => 1) ((pairs.map f).sum / pairs.length) pairs
  simp only [mul_one] at parts
  rw [parts, List.map_const', List.sum_replicate, nsmul_one, div_mul_cancel₀ _ entries, sub_self]

theorem scatter_eq_zero : scatter centre pairs = 0 ↔ ∀ p ∈ pairs, p.1 = centre := by
  simp only [scatter, sum_squares_eq_zero, sub_eq_zero]

/-- The mean of the places of pairs. -/
def meanPlace (pairs : List (ℚ × ℚ)) : ℚ :=
  (pairs.map Prod.fst).sum / pairs.length

/-- The mean of the values of pairs. -/
def meanValue (pairs : List (ℚ × ℚ)) : ℚ :=
  (pairs.map Prod.snd).sum / pairs.length

/-- The slope of the fitted line. -/
def fittedSlope (pairs : List (ℚ × ℚ)) : ℚ :=
  (pairs.map fun p => (p.1 - meanPlace pairs) * (p.2 - meanValue pairs)).sum /
    scatter (meanPlace pairs) pairs

/-- The height of the fitted line at zero. -/
def fittedIntercept (pairs : List (ℚ × ℚ)) : ℚ :=
  meanValue pairs - fittedSlope pairs * meanPlace pairs

theorem fitted_balanced (scattered : scatter (meanPlace pairs) pairs ≠ 0) :
    Balanced (fittedSlope pairs) (fittedIntercept pairs) (meanPlace pairs) pairs := by
  have some : pairs ≠ [] := by
    rintro rfl
    exact scattered rfl
  have places : (pairs.map fun p => p.1 - meanPlace pairs).sum = 0 := sum_sub_mean Prod.fst some
  have values : (pairs.map fun p => p.2 - meanValue pairs).sum = 0 := sum_sub_mean Prod.snd some
  have residual (p : ℚ × ℚ) : p.2 - (fittedSlope pairs * p.1 + fittedIntercept pairs) =
      p.2 - meanValue pairs - fittedSlope pairs * (p.1 - meanPlace pairs) := by
    rw [fittedIntercept]
    ring
  have moment (p : ℚ × ℚ) :
      (p.2 - (fittedSlope pairs * p.1 + fittedIntercept pairs)) * (p.1 - meanPlace pairs) =
        (p.1 - meanPlace pairs) * (p.2 - meanValue pairs) -
          fittedSlope pairs * (p.1 - meanPlace pairs) ^ 2 := by
    rw [residual]
    ring
  constructor
  · simp only [residual, sum_sub_mul, values, places, mul_zero, sub_self]
  · exact places
  · simp only [moment, sum_sub_mul]
    rw [fittedSlope, ← scatter, div_mul_cancel₀ _ scattered, sub_self]

/-- The fit of pairs around their means, in sums over the pairs. -/
def fitted (pairs : List (ℚ × ℚ)) : Regression ℚ :=
  ⟨fittedSlope pairs, fittedIntercept pairs,
    explained (misfit (fittedSlope pairs) (fittedIntercept pairs) pairs)
      (misfit 0 (meanValue pairs) pairs)⟩

theorem fitted_leastSquares (scattered : scatter (meanPlace pairs) pairs ≠ 0) :
    LeastSquares pairs (fitted pairs) := by
  have balanced := fitted_balanced scattered
  have positive : 0 < scatter (meanPlace pairs) pairs :=
    lt_of_le_of_ne (sum_squares_nonneg _ pairs) scattered.symm
  have nonneg := misfit_nonneg (fittedSlope pairs) (fittedIntercept pairs) pairs
  have most : misfit (fittedSlope pairs) (fittedIntercept pairs) pairs ≤
      misfit 0 (meanValue pairs) pairs := balanced.least 0 _
  have whole : (fitted pairs).rSquared = 1 ↔
      OnLine (fittedSlope pairs) (fittedIntercept pairs) pairs :=
    (explained_eq_one nonneg most).trans misfit_eq_zero
  have recovers (a b : ℚ) (on : OnLine a b pairs) : fitted pairs = ⟨a, b, 1⟩ := by
    have nothing : misfit a b pairs ≤ misfit (fittedSlope pairs) (fittedIntercept pairs) pairs := by
      rw [misfit_eq_zero.mpr on]
      exact nonneg
    obtain ⟨slopes, intercepts⟩ := balanced.unique positive nothing
    rw [slopes, intercepts] at on
    rw [slopes, intercepts, ← whole.mpr on]
    rfl
  exact {
    least := balanced.least
    unique := fun a b => balanced.unique positive
    bounds := explained_bounds nonneg most
    whole := whole
    recovers := recovers
    constant := fun c same => recovers 0 c fun p member => by rw [same p member]; ring }

theorem squaredDistances_eq (centre : ℚ) (xs : List ℚ) :
    squaredDistances centre xs = (xs.map fun x => (x - centre) ^ 2).sum := by
  simp only [squaredDistances, sum_eq, square, sq]

theorem squaredResiduals_eq (slope intercept : ℚ) (pairs : List (ℚ × ℚ)) :
    squaredResiduals slope intercept (pairs.map Prod.fst) (pairs.map Prod.snd) =
      misfit slope intercept pairs := by
  rw [squaredResiduals, sum_eq, List.zip_map', misfit]
  simp only [Prod.mk.eta, List.map_id', square, ← sq]

theorem fitAround_eq (pairs : List (ℚ × ℚ)) :
    fitAround (meanPlace pairs) (meanValue pairs) (pairs.map Prod.fst) (pairs.map Prod.snd) =
      if scatter (meanPlace pairs) pairs = 0 then .zero else fitted pairs := by
  have places : squaredDistances (meanPlace pairs) (pairs.map Prod.fst) =
      scatter (meanPlace pairs) pairs := by
    rw [squaredDistances_eq, List.map_map]
    rfl
  have values : squaredDistances (meanValue pairs) (pairs.map Prod.snd) =
      misfit 0 (meanValue pairs) pairs := by
    rw [squaredDistances_eq, List.map_map, misfit]
    simp only [zero_mul, zero_add]
    rfl
  have zero : eq (scatter (meanPlace pairs) pairs) (0.0 : ℚ) =
      decide (scatter (meanPlace pairs) pairs = 0) := by
    have zero : (0.0 : ℚ) = 0 := by norm_num
    rw [← zero]
    rfl
  have products : sum (((pairs.map Prod.fst).zip (pairs.map Prod.snd)).map fun p =>
      (p.1 - meanPlace pairs) * (p.2 - meanValue pairs)) =
        (pairs.map fun p => (p.1 - meanPlace pairs) * (p.2 - meanValue pairs)).sum := by
    rw [sum_eq, List.zip_map']
    simp only [Prod.mk.eta, List.map_id']
  simp only [fitAround, places, values, zero, decide_eq_true_eq, products, squaredResiduals_eq]
  rfl

theorem linearRegression_eq (xs ys : List ℚ) : linearRegression xs ys =
    if (xs.zip ys).length < 2 then .zero
    else fitAround (meanPlace (xs.zip ys)) (meanValue (xs.zip ys)) ((xs.zip ys).map Prod.fst)
      ((xs.zip ys).map Prod.snd) := by
  have length : (xs.zip ys).length = min xs.length ys.length := List.length_zip
  have places : xs.take (min xs.length ys.length) = (xs.zip ys).map Prod.fst := by
    rw [List.zip_eq_zip_take_min, List.map_fst_zip (by simp)]
  have values : ys.take (min xs.length ys.length) = (xs.zip ys).map Prod.snd := by
    rw [List.zip_eq_zip_take_min, List.map_snd_zip (by simp)]
  rw [linearRegression, places, values, length]
  split
  · rfl
  · rename_i enough
    have some : xs.zip ys ≠ [] := List.length_pos_iff.mp (by omega)
    rw [mean_eq (by simpa using some), mean_eq (by simpa using some), List.length_map,
      List.length_map]
    rfl

/-- A single pair, and pairs at one place, are scattered nowhere. -/
theorem scatter_ne_zero (some : pairs ≠ []) :
    scatter (meanPlace pairs) pairs ≠ 0 ↔ Spread pairs := by
  rw [Ne, scatter_eq_zero, Spread]
  constructor
  · intro scattered
    by_contra together
    refine scattered fun p hp => ?_
    have places : pairs.map Prod.fst = List.replicate pairs.length p.1 :=
      List.map_eq_replicate_iff.mpr fun q hq =>
        by_contra fun apart => together ⟨q, hq, p, hp, apart⟩
    have entries : (pairs.length : ℚ) ≠ 0 := by
      rwa [Nat.cast_ne_zero, Ne, List.length_eq_zero_iff]
    rw [meanPlace, places, List.sum_replicate, nsmul_eq_mul, mul_div_cancel_left₀ _ entries]
  · rintro ⟨p, hp, q, hq, apart⟩ together
    exact apart ((together p hp).trans (together q hq).symm)

theorem Spread.two_le_length (spread : Spread pairs) : 2 ≤ pairs.length := by
  obtain ⟨p, hp, q, hq, apart⟩ := spread
  match pairs with
  | [] => cases hp
  | [r] => rw [List.mem_singleton.mp hp, List.mem_singleton.mp hq] at apart; exact absurd rfl apart
  | _ :: _ :: rest => exact Nat.le_add_left 2 rest.length

theorem zero_eq : (Regression.zero : Regression ℚ) = ⟨0, 0, 0⟩ := by
  have zero : (0.0 : ℚ) = 0 := by norm_num
  exact congrArg (fun x : ℚ => (⟨x, x, x⟩ : Regression ℚ)) zero

/-- Pairs at different places have a line of least squares; without them there is nothing to
    fit. -/
theorem linearRegression_fits (xs ys : List ℚ) :
    (Spread (xs.zip ys) → LeastSquares (xs.zip ys) (linearRegression xs ys)) ∧
      (¬ Spread (xs.zip ys) → linearRegression xs ys = ⟨0, 0, 0⟩) := by
  rw [linearRegression_eq, fitAround_eq, zero_eq]
  by_cases few : (xs.zip ys).length < 2
  · rw [if_pos few]
    exact ⟨fun spread => absurd few spread.two_le_length.not_gt, fun _ => rfl⟩
  · have some : xs.zip ys ≠ [] := List.length_pos_iff.mp (by omega)
    have scattered := scatter_ne_zero some
    rw [if_neg few]
    refine ⟨fun spread => ?_, fun together => if_pos ?_⟩
    · rw [if_neg (scattered.mpr spread)]
      exact fitted_leastSquares (scattered.mpr spread)
    · exact not_not.mp fun nonzero => together (scattered.mp nonzero)

/-- Three pairs that no line goes through; the fourth place has no value. -/
theorem threePairs_fitted : Spread ([0, 1, 2, 9].zip [1, 2, 4]) ∧
    linearRegression [0, 1, 2, 9] [1, 2, 4] = (⟨3 / 2, 5 / 6, 27 / 28⟩ : Regression ℚ) ∧
    LeastSquares ([0, 1, 2, 9].zip [1, 2, 4]) (linearRegression [0, 1, 2, 9] [1, 2, 4]) ∧
    ¬ Spread ([5, 5, 0].zip [1, 2]) ∧
    linearRegression [5, 5, 0] [1, 2] = (⟨0, 0, 0⟩ : Regression ℚ) := by
  have spread : Spread ([0, 1, 2, 9].zip [1, 2, 4]) :=
    ⟨(0, 1), by decide +kernel, (1, 2), by decide +kernel, by decide +kernel⟩
  have together : ¬ Spread ([5, 5, 0].zip [1, 2]) := by
    rintro ⟨p, hp, q, hq, apart⟩
    have place : ∀ p ∈ [(5, 1), ((5 : ℚ), (2 : ℚ))], p.1 = 5 := by decide +kernel
    exact apart ((place p hp).trans (place q hq).symm)
  exact ⟨spread, by decide +kernel, (linearRegression_fits _ _).1 spread, together,
    (linearRegression_fits _ _).2 together⟩

end Qualification.Statistics
