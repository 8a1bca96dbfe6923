import AccessSampling.Options.Validation
import AccessSampling.Proofs.ScoreMonotone

/-!
# The sign of the control

The weights say in which direction each sub-score counts. The sub-scores stay within the full score,
so their weighted sum stays in the range that the weights allow, and the composite is its place in
that range. From there on a class whose sub-scores move as the weights ask is never sampled less:
neither its target period nor the smoothed one grows, whatever the roundings on the way.
-/

namespace AccessSampling

/-! ## Sub-scores within the full score -/

section Entries

variable {ι : Type}

theorem vibrateScore_le (entries : List (HeapEntry ι)) (stats : ι → IntervalStats)
    (flucMax : Nat) : vibrateScore entries stats flucMax ≤ fullScore := by
  unfold vibrateScore
  simp only
  split
  · exact Nat.zero_le _
  · exact ratioScore_le ..

theorem hotnessScore_le (entries : List (HeapEntry ι)) (capacity hitMax : Nat) :
    hotnessScore entries capacity hitMax ≤ fullScore := by
  unfold hotnessScore
  split
  · exact Nat.zero_le _
  · exact Nat.min_le_left ..

theorem overheadScore_le (samples overheadMax : Nat) :
    overheadScore samples overheadMax ≤ fullScore :=
  ratioScore_le ..

end Entries

/-! ## The range of the weighted sum -/

/-- A weighted sub-score counts at most in full, in the direction of its weight. -/
theorem weighted_between (weight : Int) {score : Nat} (h : score ≤ fullScore) :
    min weight 0 * fullScore ≤ weight * score ∧ weight * score ≤ max weight 0 * fullScore := by
  have hscore : (score : Int) ≤ fullScore := Int.ofNat_le.2 h
  rcases Int.le_total 0 weight with hpos | hneg
  · rw [Int.min_eq_right hpos, Int.max_eq_left hpos, Int.zero_mul]
    exact ⟨Int.mul_nonneg hpos (Int.natCast_nonneg _), Int.mul_le_mul_of_nonneg_left hscore hpos⟩
  · rw [Int.min_eq_left hneg, Int.max_eq_right hneg, Int.zero_mul]
    exact ⟨Int.mul_le_mul_of_nonpos_left hneg hscore,
      Int.mul_nonpos_of_nonpos_of_nonneg hneg (Int.natCast_nonneg _)⟩

namespace Weights

variable {w : Weights}

/-- Rounding towards zero does not leave the range, for its ends are whole. -/
theorem weigh_between {v h n : Nat} (hv : v ≤ fullScore) (hh : h ≤ fullScore)
    (hn : n ≤ fullScore) : w.lowest ≤ w.weigh v h n ∧ w.weigh v h n ≤ w.highest := by
  have hfull : (fullScore : Int) ≠ 0 := by decide
  have hvibrate := weighted_between w.vibrate hv
  have hhotness := weighted_between w.hotness hh
  have hoverhead := weighted_between w.overhead hn
  constructor
  · rw [← Int.mul_tdiv_cancel w.lowest hfull]
    refine Int.tdiv_le_tdiv (by decide) ?_
    rw [lowest, Int.add_mul, Int.add_mul]
    omega
  · rw [← Int.mul_tdiv_cancel w.highest hfull]
    refine Int.tdiv_le_tdiv (by decide) ?_
    rw [highest, Int.add_mul, Int.add_mul]
    omega

/-- Within the range the place of a composite is its share of the range, rounded down. -/
theorem normalize_eq (hrange : w.lowest < w.highest) {raw : Int} (hlow : w.lowest ≤ raw)
    (hhigh : raw ≤ w.highest) :
    (w.normalize raw : Int) = (raw - w.lowest) * fullScore / (w.highest - w.lowest) := by
  unfold normalize
  by_cases hfirst : raw ≤ w.lowest
  · have heq : raw - w.lowest = 0 := by omega
    rw [if_pos hfirst, heq, Int.zero_mul, Int.zero_ediv]
    rfl
  · by_cases hlast : w.highest ≤ raw
    · have heq : raw = w.highest := by omega
      rw [if_neg hfirst, if_pos hlast, heq, Int.mul_ediv_cancel_left _ (by omega)]
    · rw [if_neg hfirst, if_neg hlast, Int.toNat_of_nonneg]
      refine Int.ediv_nonneg (Int.mul_nonneg (by omega) (by decide)) (by omega)

end Weights

/-! ## The direction of a weight -/

/-- A sub-score moved in the direction that its weight asks for, or stayed: a weight that is not
negative asks for a higher one, a weight that is not positive for a lower one. -/
def Favours (weight : Int) (score score' : Nat) : Prop :=
  0 ≤ weight ∧ score ≤ score' ∨ weight ≤ 0 ∧ score' ≤ score

namespace Favours

theorem refl (weight : Int) (score : Nat) : Favours weight score score := by
  rcases Int.le_total 0 weight with hpos | hneg
  · exact .inl ⟨hpos, Nat.le_refl _⟩
  · exact .inr ⟨hneg, Nat.le_refl _⟩

/-- Such a sub-score counts for no less. -/
theorem weighted_le {weight : Int} {score score' : Nat} (h : Favours weight score score') :
    weight * score ≤ weight * score' := by
  rcases h with ⟨hpos, hle⟩ | ⟨hneg, hle⟩
  · exact Int.mul_le_mul_of_nonneg_left (Int.ofNat_le.2 hle) hpos
  · exact Int.mul_le_mul_of_nonpos_left hneg (Int.ofNat_le.2 hle)

end Favours

/-- Sub-scores that moved as their weights ask never lower the composite. -/
theorem Metrics.composite_mono {w : Weights} {v v' h h' n n' : Nat} (hv : Favours w.vibrate v v')
    (hh : Favours w.hotness h h') (hn : Favours w.overhead n n') :
    (Metrics.ofSubscores w v h n).composite ≤ (Metrics.ofSubscores w v' h' n').composite :=
  Weights.normalize_mono (Weights.weigh_mono hv.weighted_le hh.weighted_le hn.weighted_le)

/-- A longer target never smooths to a shorter period. -/
theorem Ratio.smooth_mono (r : Ratio) (current : Nat) {target target' : Nat}
    (h : target ≤ target') : r.smooth current target ≤ r.smooth current target' := by
  have hshare := Nat.mul_le_mul_left r.num h
  exact Nat.div_le_div_right (by omega)

/-! ## The control -/

/-- With valid options the scores of every heap and number of samples stay in their ranges: each
sub-score within the full score, the weighted sum in the range of the weights, the composite at its
place in that range, and the target between the shortest and the longest period. And the control has
the right sign: sub-scores that moved as their weights ask, or stayed, never ask for a longer
period, and from the same period in effect they never smooth to a longer one. -/
theorem periods_follow_weights {o : Options} (hvalid : o.Valid) {ι : Type} (heap : HotHeap ι)
    (stats : ι → IntervalStats) (samples : Nat) (v v' h h' n n' current : Nat) :
    let w := o.score.weights
    let m := heap.metrics stats samples o.score
    let sum := w.weigh m.vibrate m.hotness m.overhead
    let target := o.period.target (Metrics.ofSubscores w v h n).composite
    let target' := o.period.target (Metrics.ofSubscores w v' h' n').composite
    (m.vibrate ≤ fullScore ∧ m.hotness ≤ fullScore ∧ m.overhead ≤ fullScore) ∧
      (w.lowest ≤ sum ∧ sum ≤ w.highest) ∧
      ((m.composite : Int) = (sum - w.lowest) * fullScore / (w.highest - w.lowest) ∧
        m.composite ≤ fullScore) ∧
      (o.period.min ≤ o.period.target m.composite ∧ o.period.target m.composite ≤ o.period.max) ∧
      (Favours w.vibrate v v' → Favours w.hotness h h' → Favours w.overhead n n' →
        target' ≤ target ∧
          o.period.ema.smooth current target' ≤ o.period.ema.smooth current target) := by
  intro w m sum target target'
  have hvibrate : m.vibrate ≤ fullScore := vibrateScore_le ..
  have hhotness : m.hotness ≤ fullScore := hotnessScore_le ..
  have hoverhead : m.overhead ≤ fullScore := overheadScore_le ..
  have hsum : w.lowest ≤ sum ∧ sum ≤ w.highest := Weights.weigh_between hvibrate hhotness hoverhead
  have hperiods : o.period.min ≤ o.period.max := Nat.le_of_lt hvalid.min_lt_max
  refine ⟨⟨hvibrate, hhotness, hoverhead⟩, hsum, ⟨?_, Weights.normalize_le ..⟩,
    PeriodOptions.target_between hperiods _, fun hv hh hn => ?_⟩
  · exact Weights.normalize_eq hvalid.lowest_lt_highest hsum.1 hsum.2
  · have htarget : target' ≤ target :=
      PeriodOptions.target_anti hperiods (Metrics.composite_mono hv hh hn)
    exact ⟨htarget, Ratio.smooth_mono _ current htarget⟩

/-- Default options but for the weights: volatile items lower the score, and overhead counts for
nothing. -/
def steadyOptions : Options :=
  { score := { weights := { vibrate := -3000, hotness := 7000, overhead := 0 } } }

/-- A class that got steadier and hotter gets a shorter target period. -/
theorem periods_follow_steadyOptions :
    let w := steadyOptions.score.weights
    let heap : HotHeap UInt64 := { capacity := 4, entries := #[⟨7, 30⟩, ⟨9, 50⟩] }
    let m := heap.metrics (fun _ => {}) 2500 steadyOptions.score
    let before := steadyOptions.period.target (Metrics.ofSubscores w 5000 3001 2500).composite
    let after := steadyOptions.period.target (Metrics.ofSubscores w 4000 4050 2500).composite
    (steadyOptions.Valid ∧ Favours w.vibrate 5000 4000 ∧ Favours w.hotness 3001 4050 ∧
      Favours w.overhead 2500 2500) ∧
    (m.hotness = 4050 ∧ w.weigh m.vibrate m.hotness m.overhead = 2835 ∧ m.composite = 5835 ∧
      m.composite ≤ fullScore) ∧
    (before = 128720 ∧ after = 108227) ∧
    after ≤ before ∧
    steadyOptions.period.ema.smooth 2000 after ≤ steadyOptions.period.ema.smooth 2000 before := by
  intro w heap m before after
  have hvalid : steadyOptions.Valid := by decide
  have hvibrate : Favours w.vibrate 5000 4000 := .inr ⟨by decide, by decide⟩
  have hhotness : Favours w.hotness 3001 4050 := .inl ⟨by decide, by decide⟩
  have hoverhead : Favours w.overhead 2500 2500 := .refl ..
  obtain ⟨-, -, ⟨-, hcomposite⟩, -, hsign⟩ :=
    periods_follow_weights hvalid heap (fun _ => {}) 2500 5000 4000 3001 4050 2500 2500 2000
  exact ⟨⟨hvalid, hvibrate, hhotness, hoverhead⟩,
    ⟨by decide, by decide, by decide, hcomposite⟩, ⟨by decide, by decide⟩,
    hsign hvibrate hhotness hoverhead⟩

end AccessSampling
