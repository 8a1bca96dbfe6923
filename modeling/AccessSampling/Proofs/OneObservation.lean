import AccessSampling.Proofs.FluctuationGrowth

/-!
# One observation of any statistics

What a single sample time does to statistics of any content, those that no run of times leads to
included. The deviation is a signed word and the count that divides it is at least one, so the share
of the deviation is again a signed word. What the mean leaves of the deviation has its sign, so the
sum of squares grows by their product, brought back to scale, and stops only at the end of a word.
-/

namespace AccessSampling

/-- The quotient of two signed numbers, rounded towards zero, if there is one and it fits the signed
word. -/
def signedQuot? (bits : Nat) (a b : Int) : Option Int :=
  if b = 0 ∨ a.tdiv b ≠ clampSigned bits (a.tdiv b) then none else some (a.tdiv b)

/-- A positive divisor leaves a signed word a signed word. -/
theorem signedQuot?_of_pos {a : Int} {n : Nat} (hlow : -2 ^ 63 ≤ a) (hhigh : a < 2 ^ 63)
    (hn : 0 < n) : signedQuot? 64 a n = some (a.tdiv n) := by
  have hshare := IntervalStats.share_between a n
  have hfits : clampSigned 64 (a.tdiv n) = a.tdiv n :=
    clampSigned_of_range (by omega) (by omega)
  rw [signedQuot?, if_neg]
  rintro (hzero | hclamped)
  · omega
  · exact hclamped hfits.symm

namespace IntervalStats

/-- The product of the deviations from the old and from the new mean is added to the sum of squares,
brought back to scale and kept within the signed word; the sum is kept within its word. -/
theorem toNat_m2_extend (s : IntervalStats) (now interval : UInt64) :
    let d := deviation interval s.mean
    let n := (saturatingSucc s.count).toNat
    ((s.extend now interval).m2.toNat : Int) =
      min (2 ^ 64 - 1) (s.m2.toNat + min (2 ^ 63 - 1) (d * (d - d.tdiv n) / scale)) := by
  intro d n
  have hquot : 0 ≤ d * (d - d.tdiv n) / scale :=
    Int.ediv_nonneg (mul_rest_nonneg d n) (Int.natCast_nonneg scale)
  have hm2 : (s.extend now interval).m2 =
      saturatingAdd s.m2 (clampSigned 64 (d * (d - d.tdiv n) / scale)) := by
    show saturatingAdd s.m2 (clampSigned 64 (_ / _)) = _
    rw [deviation_moved]
  rw [hm2, toNat_saturatingAdd, clampSigned]
  omega

/-- Whatever the statistics hold, a sample time that is accepted never lowers the sum of squares and
adds exactly the product of the two deviations, within the words; the division on the way has a
divisor of at least one and an answer in the signed word. Any other sample time either starts the
statistics again or leaves every field as it was. -/
theorem observe_any (s : IntervalStats) (now : UInt64) :
    let n := (saturatingSucc s.count).toNat
    let d := wrapSigned 64 (scale * (now - s.lastTime).toNat - s.mean.toNat)
    match s.observe now with
    | (.coldStart, s') =>
      s.lastTime = 0 ∧ s' = { lastTime := now, count := 1, mean := 0, m2 := 0 }
    | (.outOfOrder, s') => s.lastTime ≠ 0 ∧ now ≤ s.lastTime ∧ s' = s
    | (.accepted interval, s') =>
      (s.lastTime ≠ 0 ∧ s.lastTime < now ∧ interval = now - s.lastTime) ∧
        (s'.count.toNat = n ∧ 1 ≤ n) ∧
        signedQuot? 64 d n = some (d.tdiv n) ∧
        s.m2 ≤ s'.m2 ∧
        (s'.m2.toNat : Int) =
          min (2 ^ 64 - 1) (s.m2.toNat + min (2 ^ 63 - 1) (d * (d - d.tdiv n) / scale)) := by
  intro n d
  by_cases hcold : s.lastTime = 0
  · rw [observe, if_pos hcold]
    exact ⟨hcold, rfl⟩
  · by_cases hle : now ≤ s.lastTime
    · rw [observe_of_le hcold hle]
      exact ⟨hcold, hle, rfl⟩
    · have hlt : s.lastTime < now := UInt64.not_le.1 hle
      have hn : 0 < n := saturatingSucc_pos s.count
      obtain ⟨hlow, hhigh⟩ := deviation_range (now - s.lastTime) s.mean
      rw [observe_of_lt (UInt64.pos_iff_ne_zero.2 hcold) hlt]
      exact ⟨⟨hcold, hlt, rfl⟩, ⟨rfl, hn⟩, signedQuot?_of_pos hlow hhigh hn, m2_le_extend ..,
        toNat_m2_extend ..⟩

end IntervalStats

end AccessSampling
