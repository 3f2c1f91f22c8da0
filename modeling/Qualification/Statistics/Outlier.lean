import Qualification.Statistics.Summary

/-! # Outlier screening

Three ways to call a reading an outlier of its series. Each looks only at the values and
a multiplier and answers with positions, in ascending order.
-/

namespace Qualification.Statistics

open Scalar

/-- A screening method with its multiplier. -/
inductive OutlierMethod (α : Type) where
  /-- Beyond the quartiles by more than `k` interquartile ranges. -/
  | iqr (k : α)
  /-- More than `k` population standard deviations from the mean. -/
  | zScore (k : α)
  /-- More than `k` scaled median absolute deviations from the median. -/
  | mad (k : α)
  deriving Repr, DecidableEq

def OutlierMethod.name {α : Type} : OutlierMethod α → String
  | .iqr _ => "iqr"
  | .zScore _ => "zscore"
  | .mad _ => "mad"

def OutlierMethod.k {α : Type} : OutlierMethod α → α
  | .iqr k | .zScore k | .mad k => k

variable {α : Type} [Scalar α]

/-- The positions of the values that a test picks. -/
def positions (test : α → Bool) (xs : List α) : List Nat :=
  (xs.zipIdx.filter fun p => test p.1).map (·.2)

/-- The test of the interquartile method, absent for an empty series. -/
def iqrTest (k : α) (xs : List α) : Option (α → Bool) := do
  let q1 ← percentileSorted (sorted xs) (0.25 : α)
  let q3 ← percentileSorted (sorted xs) (0.75 : α)
  let spread := q3 - q1
  let low := q1 - k * spread
  let high := q3 + k * spread
  return fun x => lt x low || lt high x

/-- Scales a median absolute deviation to the standard deviation of normal data. -/
def madScale : α :=
  0.6745

/-- The test of the median-deviation method, absent when the deviations have no spread. -/
def madTest (k : α) (xs : List α) : Option (α → Bool) := do
  let centre ← median xs
  let spread ← median (xs.map fun x => abs (x - centre))
  if eq spread (0.0 : α) then none
  return fun x => lt k (abs (madScale * (x - centre) / spread))

/-- The test of the standard-score method, absent when there is no spread. -/
def zScoreTest {α : Type} [Rooted α] (k : α) (xs : List α) : Option (α → Bool) := do
  let centre ← mean xs
  let deviation ← populationDeviation xs
  if eq deviation (0.0 : α) then none
  return fun x => lt k (abs (x - centre) / deviation)

/-- The positions that a test picks; an absent test picks none. -/
def flagged (test : Option (α → Bool)) (xs : List α) : List Nat :=
  match test with
  | some t => positions t xs
  | none => []

/-- The positions of the outliers of a series. -/
def detectOutliers {α : Type} [Rooted α] (xs : List α) : OutlierMethod α → List Nat
  | .iqr k => flagged (iqrTest k xs) xs
  | .zScore k => flagged (zScoreTest k xs) xs
  | .mad k => flagged (madTest k xs) xs

end Qualification.Statistics
