import Qualification.Numeric.Scalar

/-! # Descriptive statistics

Mean, spread, median and percentiles of a list of readings. A statistic that the list is
too short for is absent; it is never a NaN made up for the occasion.
-/

namespace Qualification.Statistics

open Scalar

variable {α : Type} [Scalar α]

def mean (xs : List α) : Option α :=
  if xs.isEmpty then none else some (sum xs / ofCount xs.length)

/-- The sum of squared distances from a centre. -/
def squaredDistances (centre : α) (xs : List α) : α :=
  sum (xs.map fun x => square (x - centre))

/-- The variance with divisor `n - 1`; it needs two values. -/
def sampleVariance (xs : List α) : Option α :=
  if xs.length < 2 then none
  else (mean xs).map fun m => squaredDistances m xs / ofCount (xs.length - 1)

def populationVariance (xs : List α) : Option α :=
  (mean xs).map fun m => squaredDistances m xs / ofCount xs.length

def sorted (xs : List α) : List α :=
  xs.mergeSort sortLe

/-- The middle value, or the mean of the two middle values. -/
def median (xs : List α) : Option α := do
  let s := sorted xs
  let middle := s.length / 2
  if s.length % 2 = 0 then
    if s.isEmpty then none
    let low ← s[middle - 1]?
    let high ← s[middle]?
    return (low + high) / (2.0 : α)
  else
    s[middle]?

/-- The percentile of sorted values at `q` between 0 and 1: the value at rank
    `q * (n - 1)`, interpolated linearly between the closest ranks. -/
def percentileSorted (s : List α) (q : α) : Option α := do
  if s.isEmpty || !(le (0.0 : α) q && le q (1.0 : α)) then none
  let rank := q * ofCount (s.length - 1)
  let low ← s[floor rank]?
  let high ← s[ceil rank]?
  return low + (high - low) * (rank - ofCount (floor rank))

section

variable {α : Type} [Rooted α]

def sampleDeviation (xs : List α) : Option α :=
  (sampleVariance xs).map Rooted.sqrt

def populationDeviation (xs : List α) : Option α :=
  (populationVariance xs).map Rooted.sqrt

/-- The coefficient of variation in percent: the sample standard deviation relative to
    the magnitude of the mean. A zero mean has none. -/
def coefficientOfVariation (xs : List α) : Option α := do
  let m ← mean xs
  let deviation ← sampleDeviation xs
  if eq m (0.0 : α) then none
  return (100.0 : α) * deviation / abs m

end

end Qualification.Statistics
