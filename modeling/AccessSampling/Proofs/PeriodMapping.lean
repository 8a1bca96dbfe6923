import AccessSampling.Period

/-!
# Bounds of targets and smoothed periods

A target lies between the shortest and the longest period, and smoothing stays between the period in
effect and the target: the rounding to the nearest integer never leaves an interval with integer
ends.
-/

namespace AccessSampling

theorem PeriodOptions.target_between {o : PeriodOptions} (h : o.min ≤ o.max) (score : Nat) :
    o.min ≤ o.target score ∧ o.target score ≤ o.max := by
  unfold target
  split
  · exact ⟨Nat.le_refl _, h⟩
  · rename_i hscore
    split
    · exact ⟨h, Nat.le_refl _⟩
    · have hshare : score * (o.max - o.min) / fullScore ≤ o.max - o.min := by
        refine Nat.div_le_of_le_mul ?_
        exact Nat.mul_le_mul_right _ (Nat.le_of_not_le hscore)
      exact ⟨by omega, Nat.sub_le ..⟩

namespace Ratio

variable {r : Ratio}

/-- A mix of two equal parts is that part, so a mix is monotone in both. -/
theorem mix_between (hn : r.num ≤ r.den) (current target : Nat) :
    r.den * min current target ≤ r.num * target + (r.den - r.num) * current ∧
      r.num * target + (r.den - r.num) * current ≤ r.den * max current target := by
  have hsplit : ∀ p, r.num * p + (r.den - r.num) * p = r.den * p := by
    intro p
    rw [← Nat.add_mul, Nat.add_sub_cancel' hn]
  constructor
  · rw [← hsplit]
    exact Nat.add_le_add (Nat.mul_le_mul_left _ (Nat.min_le_right ..))
      (Nat.mul_le_mul_left _ (Nat.min_le_left ..))
  · rw [← hsplit]
    exact Nat.add_le_add (Nat.mul_le_mul_left _ (Nat.le_max_right ..))
      (Nat.mul_le_mul_left _ (Nat.le_max_left ..))

theorem smooth_between (hd : 0 < r.den) (hn : r.num ≤ r.den) (current target : Nat) :
    min current target ≤ r.smooth current target ∧
      r.smooth current target ≤ max current target := by
  obtain ⟨hlow, hhigh⟩ := mix_between hn current target
  -- what rounding adds is less than one whole step
  have hhalf : r.den / 2 < r.den := Nat.div_lt_self hd Nat.one_lt_two
  constructor
  · rw [smooth, Nat.le_div_iff_mul_le hd, Nat.mul_comm]
    omega
  · rw [smooth, ← Nat.lt_succ_iff, Nat.div_lt_iff_lt_mul hd, Nat.succ_mul,
      Nat.mul_comm (max current target)]
    omega

/-- Smoothing towards a positive target keeps a positive period positive. -/
theorem smooth_pos (hd : 0 < r.den) (hn : r.num ≤ r.den) {current target : Nat}
    (hcurrent : 0 < current) (htarget : 0 < target) : 0 < r.smooth current target := by
  have h := (smooth_between hd hn current target).1
  omega

end Ratio

end AccessSampling
