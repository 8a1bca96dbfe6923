import AccessSampling.Proofs.RunningMean
import Mathlib.Algebra.Order.Ring.Abs

/-!
# The sum of squared deviations

A step adds the product of the deviations from the old and from the new mean. Summed without
rounding, these products miss the sum of squared deviations around the new mean by the move of the
mean times the error of both means, so the remainders of the mean come back here. What the rounding
of each product to the scale drops is below `scale`.
-/

namespace AccessSampling

namespace IntervalStats

/-- The sum of squared deviations of some observations from a mean. -/
def spread (xs : List Nat) (mean : Int) : Int := (xs.map fun x : Nat => ((x : Int) - mean) ^ 2).sum

/-! ## The spread around a moved mean -/

theorem spread_append_singleton (xs : List Nat) (x : Nat) (mean : Int) :
    spread (xs ++ [x]) mean = spread xs mean + ((x : Int) - mean) ^ 2 := by
  rw [spread, List.map_append, List.sum_append, List.map_singleton, List.sum_singleton, ← spread]

theorem spread_move (xs : List Nat) (mean move : Int) :
    spread xs (mean + move) =
      spread xs mean + 2 * move * meanError xs mean + xs.length * move ^ 2 := by
  induction xs with
  | nil => simp [spread, meanError]
  | cons x rest ih =>
      simp only [spread, meanError, List.map_cons, List.sum_cons, List.length_cons] at ih ⊢
      rw [ih]
      push_cast
      ring

/-- The product of the two deviations is what the spread grows by, but for the errors of the two
means. -/
theorem spread_step (xs : List Nat) (x : Nat) (mean move : Int) :
    spread (xs ++ [x]) (mean + move) =
      spread xs mean + (x - mean) * (x - (mean + move)) +
        move * (meanError xs mean + meanError (xs ++ [x]) (mean + move)) := by
  rw [spread_append_singleton, spread_move, meanError_append_singleton]
  push_cast
  ring

/-! ## Bounds of a step -/

theorem abs_share_mul_le (d : Int) (n : Nat) : |d.tdiv n| * n ≤ |d| := by
  rw [Int.abs_eq_natAbs, Int.abs_eq_natAbs, Int.natAbs_tdiv, ← Int.natCast_mul]
  exact Int.ofNat_le.2 (Nat.div_mul_le_self _ _)

/-- The deviation from the new mean has the sign of the deviation from the old one and is no
larger. -/
theorem product_between {d share : Int} (h : min d 0 ≤ share ∧ share ≤ max d 0) :
    0 ≤ d * (d - share) ∧ d * (d - share) ≤ d ^ 2 := by
  obtain ⟨hlow, hhigh⟩ := h
  rcases le_total 0 d with hd | hd
  · rw [min_eq_right hd] at hlow
    rw [max_eq_left hd] at hhigh
    constructor <;> nlinarith
  · rw [min_eq_left hd] at hlow
    rw [max_eq_right hd] at hhigh
    constructor <;> nlinarith

/-- A deviation between values of one range is no larger than the range. -/
theorem abs_deviation_le {x mean bound : Nat} (hx : x ≤ bound) (hm : mean ≤ bound) :
    |(x : Int) - mean| ≤ bound := by
  rw [abs_le]
  omega

/-- The move of the mean is its share of the deviation, so it makes up for the errors of `n`
steps. -/
theorem abs_move_mul_le {d e e' : Int} {n bound : Nat} (hd : |d| ≤ bound)
    (he : |e| ≤ (n * (n - 1) / 2 : Nat)) (he' : |e'| ≤ ((n + 1) * (n + 1 - 1) / 2 : Nat)) :
    |d.tdiv (n + 1 : Nat) * (e + e')| ≤ bound * n := by
  have hsum : |e + e'| ≤ n * n := by
    have htri : 2 * (n * (n - 1) / 2) + n ≤ n * n := by
      have hle := Nat.div_mul_le_self (n * (n - 1)) 2
      cases n with
      | zero => omega
      | succ n =>
          rw [Nat.add_sub_cancel] at hle ⊢
          rw [Nat.mul_succ]
          omega
    rw [Nat.triangle_succ] at he'
    have habs := abs_add_le e e'
    have htri' : 2 * ((n * (n - 1) / 2 : Nat) : Int) + n ≤ n * n := by exact_mod_cast htri
    push_cast at he'
    linarith
  have hshare := abs_share_mul_le d (n + 1)
  rw [abs_mul]
  calc |d.tdiv (n + 1 : Nat)| * |e + e'|
      ≤ |d.tdiv (n + 1 : Nat)| * (n * n) := by gcongr
    _ ≤ |d.tdiv (n + 1 : Nat)| * ((n + 1 : Nat) * n) := by
        gcongr
        exact Nat.le_succ n
    _ = |d.tdiv (n + 1 : Nat)| * (n + 1 : Nat) * n := by ring
    _ ≤ bound * n := by
        gcongr
        exact hshare.trans hd

/-- Bringing a product back to scale loses less than the scale, on top of what the sum of squares
has lost before and of what the move of the mean costs. -/
theorem abs_scaled_sum_le (m2 squares p cost : Int) {lost bound : Int}
    (hlost : |scale * m2 - squares| ≤ lost) (hcost : |cost| ≤ bound) :
    |scale * (m2 + p / scale) - (squares + p + cost)| ≤ lost + 1023 + bound := by
  have hround : |scale * (p / scale) - p| ≤ 1023 := by
    rw [abs_le, scale]
    omega
  rw [show (scale : Int) * (m2 + p / scale) - (squares + p + cost) =
      scale * m2 - squares + (scale * (p / scale) - p) - cost by ring]
  exact (abs_sub _ _).trans (add_le_add ((abs_add_le _ _).trans (add_le_add hlost hround)) hcost)

/-! ## Runs -/

/-- What the sum of squares keeps of the times so far, for observations up to `bound`. -/
structure TracksSquares (s : IntervalStats) (ts : List UInt64) (bound : Nat) : Prop where
  m2_le : scale * s.m2.toNat ≤ (ts.length - 1) * bound ^ 2
  error_le : |(scale * s.m2.toNat : Int) - spread (observations ts) s.mean.toNat| ≤
    (bound * (ts.length * (ts.length - 1) / 2) + 1023 * (ts.length - 1) : Nat)

theorem tracksSquares_singleton (t : UInt64) (bound : Nat) :
    TracksSquares (({} : IntervalStats).observeAll [t]) [t] bound where
  m2_le := Nat.zero_le _
  error_le := by
    rw [show (({} : IntervalStats).observeAll [t]).mean = 0 from rfl,
      show (({} : IntervalStats).observeAll [t]).m2 = 0 from rfl]
    simp [observations, intervals, spread]

/-- The product of the two deviations of a step, exactly. -/
def product (s : IntervalStats) (now : UInt64) : Int :=
  ((s.observation now : Int) - s.mean.toNat) *
    ((s.observation now : Int) - (s.observe now).2.mean.toNat)

/-- A step that neither wraps nor saturates adds the product of the deviations, brought back to
scale. -/
theorem NoWrap.toNat_m2 {s : IntervalStats} {now : UInt64} (h : NoWrap s now)
    (h0 : 0 < s.lastTime) (hnonneg : 0 ≤ s.product now)
    (hsmall : s.product now < 2 ^ 73) (hm2 : s.m2.toNat < 2 ^ 63) :
    ((s.observe now).2.m2.toNat : Int) = s.m2.toNat + s.product now / scale := by
  have hm2eq : (s.observe now).2.m2 =
      saturatingAdd s.m2 (clampSigned 64 (s.product now / scale)) := by
    have hafter := h.after
    rw [product, ← h.before, ← hafter, observe_of_lt h0 h.later]
    rfl
  rw [hm2eq, scale, clampSigned_of_range (by omega) (by omega),
    toNat_saturatingAdd_of_lt (by omega)]
  omega

/-- The product of the deviations is not negative and at most the square of the bound. -/
theorem NoWrap.product_mem {s : IntervalStats} {now : UInt64} {bound : Nat} (h : NoWrap s now)
    (hobs : s.observation now ≤ bound) (hmean : s.mean.toNat ≤ bound) :
    0 ≤ s.product now ∧ s.product now ≤ (bound ^ 2 : Nat) := by
  have hproduct := product_between (share_between ((s.observation now : Int) - s.mean.toNat)
    (s.count.toNat + 1))
  have hdev := abs_deviation_le hobs hmean
  rw [product, h.moved, ← sub_sub]
  refine ⟨hproduct.1, hproduct.2.trans ?_⟩
  rw [Nat.cast_pow, ← sq_abs]
  exact pow_le_pow_left₀ (abs_nonneg _) hdev 2

/-- The next time in order keeps the sum of squares on track. -/
theorem TracksSquares.observe {s : IntervalStats} {ts : List UInt64} {now : UInt64} {bound : Nat}
    (h : TracksSquares s ts bound) (ht : Tracks s ts) (ho : InOrder (ts ++ [now]))
    (hbound : scale * longest (ts ++ [now]) ≤ bound) (hsmall : ts.length * bound ^ 2 < 2 ^ 73) :
    TracksSquares (s.observe now).2 (ts ++ [now]) bound := by
  obtain ⟨hpos, hstep, -⟩ := ht.noWrap ho
  have hobs : s.observation now ≤ bound :=
    (le_scale_longest (ht.observation_mem now)).trans hbound
  have hmean : s.mean.toNat ≤ bound :=
    ht.mean_le.trans ((Nat.mul_le_mul_left _ (longest_le_append ts [now])).trans hbound)
  obtain ⟨hnonneg, hproduct⟩ := hstep.product_mem hobs hmean
  obtain ⟨n, hn⟩ : ∃ n, ts.length = n + 1 := Nat.exists_eq_add_one.2 ht.length_pos
  have hm2le := h.m2_le
  have herror := h.error_le
  rw [hn, Nat.add_sub_cancel] at hm2le
  rw [hn, Nat.succ_mul] at hsmall
  have hm2 := hstep.toNat_m2 hpos hnonneg (by omega) (by rw [scale] at hm2le; omega)
  have hlen : (ts ++ [now]).length = n + 1 + 1 := by simp [hn]
  constructor
  · rw [hlen, Nat.add_sub_cancel, Nat.succ_mul]
    rw [scale] at *
    omega
  · have hmoved := hstep.moved
    have hmean_error := ht.error_le
    have hmean_error' := (ht.observe ho).error_le
    rw [ht.count, hn] at hmoved
    rw [hn] at hmean_error
    rw [hlen, observations_append_singleton ht.lastTime, ← observation] at hmean_error'
    have hmove := abs_move_mul_le (abs_deviation_le hobs hmean) hmean_error hmean_error'
    have hspread := spread_step (observations ts) (s.observation now) s.mean.toNat
      (((s.observation now : Int) - s.mean.toNat).tdiv (n + 1 + 1 : Nat))
    rw [← hmoved, ← product] at hspread
    rw [hlen, observations_append_singleton ht.lastTime, ← observation, hspread, hm2]
    rw [hn] at herror
    refine (abs_scaled_sum_le _ _ _ _ herror hmove).trans ?_
    rw [Nat.triangle_succ (n + 1)]
    push_cast
    linarith

/-- Fresh statistics track the squares of every list of times in order, as long as the observations
are too small to saturate. -/
theorem tracksSquares_of_inOrder {t : UInt64} {ts : List UInt64} {bound : Nat}
    (h : InOrder (t :: ts)) (hbound : scale * longest (t :: ts) ≤ bound)
    (hsmall : ts.length * bound ^ 2 < 2 ^ 73) :
    TracksSquares (({} : IntervalStats).observeAll (t :: ts)) (t :: ts) bound := by
  induction ts using List.reverseRecOn with
  | nil => exact tracksSquares_singleton t bound
  | append_singleton ts now ih =>
      rw [← List.cons_append] at h hbound ⊢
      rw [List.length_append] at hsmall
      have hbefore : scale * longest (t :: ts) ≤ bound :=
        (Nat.mul_le_mul_left _ (longest_le_append _ [now])).trans hbound
      have hle : ts.length * bound ^ 2 ≤ (ts.length + 1) * bound ^ 2 :=
        Nat.mul_le_mul_right _ (Nat.le_succ _)
      rw [observeAll_append]
      exact (ih h.of_append hbefore (Nat.lt_of_le_of_lt hle hsmall)).observe
        (tracks_of_inOrder h.of_append) h hbound hsmall

/-- While times come in order and the squares do not saturate, the one-pass sum misses the sum of
squared deviations around the mean in the statistics by no more than the roundings of `n` steps. -/
theorem m2_of_inOrder {t : UInt64} {ts : List UInt64} (h : InOrder (t :: ts))
    (hsmall : ts.length * (scale * longest (t :: ts)) ^ 2 < 2 ^ 73) :
    |(scale * (({} : IntervalStats).observeAll (t :: ts)).m2.toNat : Int) -
        spread (observations (t :: ts)) (({} : IntervalStats).observeAll (t :: ts)).mean.toNat| ≤
      (scale * longest (t :: ts) * (t :: ts).length * ((t :: ts).length - 1) / 2 +
        1023 * ((t :: ts).length - 1) : Nat) := by
  refine (tracksSquares_of_inOrder h (Nat.le_refl _) hsmall).error_le.trans ?_
  rw [Nat.mul_assoc (scale * _)]
  exact Int.ofNat_le.2 (Nat.add_le_add_right (Nat.mul_div_le_mul_div_assoc _ _ _) _)

/-- Uneven distances, whose mean has a remainder in every step. -/
theorem m2_of_five_times :
    InOrder [7, 8, 1000, 1003, 2000000] ∧
      4 * (scale * longest [7, 8, 1000, 1003, 2000000]) ^ 2 < 2 ^ 73 ∧
      |(scale * (({} : IntervalStats).observeAll [7, 8, 1000, 1003, 2000000]).m2.toNat : Int) -
          spread (observations [7, 8, 1000, 1003, 2000000])
            (({} : IntervalStats).observeAll [7, 8, 1000, 1003, 2000000]).mean.toNat| ≤
        (scale * longest [7, 8, 1000, 1003, 2000000] * 5 * (5 - 1) / 2 + 1023 * (5 - 1) : Nat) :=
  have h : InOrder [7, 8, 1000, 1003, 2000000] := by decide
  have hsmall : 4 * (scale * longest [7, 8, 1000, 1003, 2000000]) ^ 2 < 2 ^ 73 := by decide
  ⟨h, hsmall, m2_of_inOrder h hsmall⟩

end IntervalStats

end AccessSampling
