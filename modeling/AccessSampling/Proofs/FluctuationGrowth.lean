import AccessSampling.Proofs.RunningMean

/-!
# The fluctuation of an item only grows

A step may wrap: an interval can be so long that its deviation is read with the wrong sign. Even
then the mean moves by a share of the very deviation that the step read, so the deviation from the
new mean has the same sign as that from the old one. Their product never takes anything from the sum
of squares, and a sum that reaches the end of its word stays there. A cold start sets the sum to
zero, but only an item whose last sample came at time zero starts cold, and such an item has no sum
yet.
-/

namespace AccessSampling

namespace IntervalStats

/-! ## One step -/

/-- A deviation is a signed word. -/
theorem deviation_range (interval mean : UInt64) :
    -(2 ^ 63 : Int) ≤ deviation interval mean ∧ deviation interval mean < 2 ^ 63 :=
  ⟨Int.le_bmod (m := 1 <<< 64) (by decide), Int.bmod_lt (m := 1 <<< 64) (by decide)⟩

/-- A mean that moves by a share of a deviation leaves the rest of the deviation, wrap or not. -/
theorem deviation_moved (interval mean : UInt64) (n : Nat) :
    let before := deviation interval mean
    deviation interval (UInt64.ofInt (mean.toNat + before.tdiv n)) = before - before.tdiv n := by
  intro before
  have hshare := share_between before n
  obtain ⟨hlow, hhigh⟩ : -(2 ^ 63 : Int) ≤ before ∧ before < 2 ^ 63 := deviation_range ..
  have hmean : ((UInt64.ofInt (mean.toNat + before.tdiv n)).toNat : Int) =
      (mean.toNat + before.tdiv n) % (1 <<< 64 : Nat) := by
    rw [UInt64.ofInt, UInt64.toNat_ofNat', Nat.one_shiftLeft]
    omega
  calc deviation interval (UInt64.ofInt (mean.toNat + before.tdiv n))
      = wrapSigned 64 (scale * interval.toNat - (mean.toNat + before.tdiv n)) := by
        rw [deviation, hmean, wrapSigned, Int.sub_emod_bmod, wrapSigned]
    _ = wrapSigned 64 (before - before.tdiv n) := by
        rw [wrapSigned, wrapSigned, ← Int.sub_sub, ← Int.bmod_sub_bmod]
        rfl
    _ = before - before.tdiv n := wrapSigned_of_range (by omega) (by omega)

/-- What a share of a deviation leaves has the sign of the deviation. -/
theorem mul_rest_nonneg (d : Int) (n : Nat) : 0 ≤ d * (d - d.tdiv n) := by
  have hshare := share_between d n
  rcases Int.le_total 0 d with hd | hd
  · exact Int.mul_nonneg hd (by omega)
  · exact Int.mul_nonneg_of_nonpos_of_nonpos hd (by omega)

/-- An interval never takes anything from the sum of squares. -/
theorem m2_le_extend (s : IntervalStats) (now interval : UInt64) :
    s.m2 ≤ (s.extend now interval).m2 := by
  rw [UInt64.le_iff_toNat_le]
  have hnonneg := mul_rest_nonneg (deviation interval s.mean) (saturatingSucc s.count).toNat
  have hquot := Int.ediv_nonneg hnonneg (Int.natCast_nonneg scale)
  show s.m2.toNat ≤ (saturatingAdd s.m2 (clampSigned 64 (_ / _))).toNat
  rw [deviation_moved, toNat_saturatingAdd, clampSigned]
  have hm2 := s.m2.toNat_lt
  omega

/-! ## Runs -/

/-- What the statistics of every item satisfy: an item that starts cold has no sum of squares, and
any other one has a sample. -/
structure Sound (s : IntervalStats) : Prop where
  m2_of_cold : s.lastTime = 0 → s.m2 = 0
  count_of_warm : s.lastTime ≠ 0 → 1 ≤ s.count

namespace Sound

variable {s : IntervalStats}

theorem observe_spec (h : s.Sound) (now : UInt64) :
    (s.observe now).2.Sound ∧ s.m2 ≤ (s.observe now).2.m2 ∧ 1 ≤ (s.observe now).2.count := by
  unfold observe
  split
  · rename_i hcold
    refine ⟨⟨fun _ => rfl, fun _ => UInt32.le_refl _⟩, ?_, UInt32.le_refl _⟩
    rw [h.m2_of_cold hcold]
    exact UInt64.zero_le
  · rename_i hwarm
    split
    · exact ⟨h, UInt64.le_refl _, h.count_of_warm hwarm⟩
    · rename_i hlater
      have hcount : 1 ≤ (saturatingSucc s.count) := saturatingSucc_pos s.count
      refine ⟨⟨fun hzero => ?_, fun _ => hcount⟩, m2_le_extend .., hcount⟩
      -- a time after another one is not zero
      refine absurd ?_ hlater
      rw [show now = 0 from hzero]
      exact UInt64.zero_le

theorem observeAll (h : s.Sound) (ts : List UInt64) : (s.observeAll ts).Sound := by
  induction ts generalizing s with
  | nil => exact h
  | cons t ts ih => exact ih (h.observe_spec t).1

end Sound

end IntervalStats

end AccessSampling
