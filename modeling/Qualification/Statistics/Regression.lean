import Qualification.Statistics.Summary

/-! # Least squares

The line through paired readings that leaves the smallest sum of squared residuals.
-/

namespace Qualification.Statistics

open Scalar

/-- A fitted line `y = slope * x + intercept` and how much of the spread it explains. -/
structure Regression (α : Type) where
  /-- The change of `y` per unit of `x`. -/
  slope : α
  intercept : α
  /-- One minus the ratio of residual to total squared distances. -/
  rSquared : α
  deriving Repr, DecidableEq

variable {α : Type} [Scalar α]

/-- The fit reported when there is nothing to fit. -/
def Regression.zero : Regression α :=
  ⟨0.0, 0.0, 0.0⟩

/-- The sum of squared residuals of a line over paired readings. -/
def squaredResiduals (slope intercept : α) (xs ys : List α) : α :=
  sum ((xs.zip ys).map fun p => square (p.2 - (slope * p.1 + intercept)))

/-- The share of the spread of `ys` that a line with these residuals explains. Values
    without spread are explained wholly when nothing is left over, else not at all. -/
def explained (residual total : α) : α :=
  if eq total (0.0 : α) then
    if eq residual (0.0 : α) then 1.0 else 0.0
  else
    1.0 - residual / total

/-- Fit a line to equally many `xs` and `ys` around their means. -/
def fitAround (mx my : α) (xs ys : List α) : Regression α :=
  let sxx := squaredDistances mx xs
  if eq sxx (0.0 : α) then .zero
  else
    let sxy := sum ((xs.zip ys).map fun p => (p.1 - mx) * (p.2 - my))
    let slope := sxy / sxx
    let intercept := my - slope * mx
    ⟨slope, intercept,
      explained (squaredResiduals slope intercept xs ys) (squaredDistances my ys)⟩

/-- Ordinary least squares over the pairs that both lists have. Fewer than two pairs, or
    no spread in `xs`, give the zero fit. -/
def linearRegression (xs ys : List α) : Regression α :=
  let n := min xs.length ys.length
  if n < 2 then .zero
  else
    match mean (xs.take n), mean (ys.take n) with
    | some mx, some my => fitAround mx my (xs.take n) (ys.take n)
    | _, _ => .zero

end Qualification.Statistics
