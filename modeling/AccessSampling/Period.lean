import AccessSampling.Fault
import AccessSampling.Options

/-!
# From scores to periods

A full score asks for the shortest period and a zero score for the longest; between them the mapping
is linear and rounds the period up. A target is then mixed with the period in effect by a fixed
share, so that periods follow scores without jumps.
-/

namespace AccessSampling

/-- The period that a score asks for. -/
def PeriodOptions.target (o : PeriodOptions) (score : Nat) : Nat :=
  if fullScore ≤ score then o.min
  else if score = 0 then o.max
  else o.max - score * (o.max - o.min) / fullScore

namespace Ratio

/-- The mix of a target, by the share of the ratio, and the current value, rounded to the nearest
integer. -/
def smooth (r : Ratio) (current target : Nat) : Nat :=
  (r.num * target + (r.den - r.num) * current + r.den / 2) / r.den

/-- The mix, with a zero denominator refused. -/
def smooth? (r : Ratio) (current target : Nat) : Except Fault Nat :=
  if r.den = 0 then .error .divisionByZero else .ok (r.smooth current target)

theorem smooth?_eq_ok {r : Ratio} (h : 0 < r.den) (current target : Nat) :
    r.smooth? current target = .ok (r.smooth current target) := by
  simp [smooth?, Nat.ne_of_gt h]

end Ratio

end AccessSampling
