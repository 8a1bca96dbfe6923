import AccessSampling.Proofs.AccessTimes
import Mathlib.Data.Nat.Choose.Basic
import Mathlib.Tactic.Linarith
import Mathlib.Tactic.Ring

/-!
# The running mean

While times come in order, no word of the statistics wraps: every sum and difference that a step
computes in 64 bits is the exact one. The mean then stays between zero and the largest observation,
and its only error is the remainder that each step drops when it rounds the share of the deviation
towards zero. The remainder of the `n`th step is below `n`, so they add up to at most
`n * (n - 1) / 2`.
-/

namespace AccessSampling

namespace IntervalStats

/-! ## Shares rounded towards zero -/

/-- A share lies between zero and the whole. -/
theorem share_between (d : Int) (n : Nat) : min d 0 ≤ d.tdiv n ∧ d.tdiv n ≤ max d 0 := by
  have hn : (0 : Int) ≤ n := Int.natCast_nonneg n
  rcases Int.le_total 0 d with hd | hd
  · have h1 := Int.tdiv_nonneg hd hn
    have h2 := Int.tdiv_le_self n hd
    omega
  · have hd' : 0 ≤ -d := by omega
    have h1 := Int.tdiv_nonneg hd' hn
    have h2 := Int.tdiv_le_self n hd'
    rw [Int.neg_tdiv] at h1 h2
    omega

/-- What a share of one in `n + 1` leaves over is at most `n`, of either sign. -/
theorem abs_remainder_le (d : Int) (n : Nat) :
    |d - (n + 1 : Nat) * d.tdiv (n + 1 : Nat)| ≤ n := by
  have hpos : (0 : Int) < (n + 1 : Nat) := by omega
  have h1 := Int.tmod_lt_of_pos d hpos
  have h2 := Int.lt_tmod_of_pos d hpos
  rw [← Int.tmod_def, abs_le]
  omega

/-! ## The error of a mean -/

/-- By how much a mean, times the number of observations, misses their sum. -/
def meanError (xs : List Nat) (mean : Int) : Int := xs.length * mean - (xs.sum : Nat)

/-- A step changes the error by what the rounding of the share leaves over. -/
theorem meanError_append_singleton (xs : List Nat) (x : Nat) (mean move : Int) :
    meanError (xs ++ [x]) (mean + move) =
      meanError xs mean - ((x : Int) - mean - (xs.length + 1 : Nat) * move) := by
  simp only [meanError, List.length_append, List.length_singleton, List.sum_append,
    List.sum_singleton]
  push_cast
  ring

/-! ## One step -/

/-- The exact observation that a later time makes. -/
def observation (s : IntervalStats) (now : UInt64) : Nat :=
  scale * (now.toNat - s.lastTime.toNat)

/-- A step in which every 64-bit operation has the exact result. The observation and both means fit
the signed reading of their words, and the two deviations and the new mean are what unbounded
integers give. -/
structure NoWrap (s : IntervalStats) (now : UInt64) : Prop where
  later : s.lastTime < now
  count_lt : s.count.toNat + 1 < 2 ^ 32
  observation_lt : s.observation now < 2 ^ 63
  mean_lt : s.mean.toNat < 2 ^ 63
  before : deviation (now - s.lastTime) s.mean = s.observation now - s.mean.toNat
  moved : ((s.observe now).2.mean.toNat : Int) =
    s.mean.toNat + ((s.observation now : Int) - s.mean.toNat).tdiv (s.count.toNat + 1 : Nat)
  moved_lt : (s.observe now).2.mean.toNat < 2 ^ 63
  after : deviation (now - s.lastTime) (s.observe now).2.mean =
    s.observation now - (s.observe now).2.mean.toNat

theorem observe_of_lt {s : IntervalStats} {now : UInt64} (h0 : 0 < s.lastTime)
    (h : s.lastTime < now) :
    s.observe now = (.accepted (now - s.lastTime), s.extend now (now - s.lastTime)) := by
  have h0' : s.lastTime ≠ 0 := UInt64.pos_iff_ne_zero.1 h0
  rw [observe, if_neg h0', if_neg (UInt64.not_le.2 h)]

/-- A deviation is exact if the observation and the mean fit the signed word. -/
theorem deviation_eq {s : IntervalStats} {now mean : UInt64} (h : s.lastTime < now)
    (hx : s.observation now < 2 ^ 63) (hm : mean.toNat < 2 ^ 63) :
    deviation (now - s.lastTime) mean = s.observation now - mean.toNat := by
  have hle : s.lastTime ≤ now := UInt64.le_of_lt h
  have hobs : scale * (now - s.lastTime).toNat = s.observation now := by
    rw [observation, UInt64.toNat_sub_of_le _ _ hle]
  rw [deviation, ← Int.natCast_mul, hobs]
  exact wrapSigned_of_range (by omega) (by omega)

/-- As long as the mean and the observation are bounded by a signed word, the step does not wrap,
and the new mean has the same bound. -/
theorem noWrap_of_le {s : IntervalStats} {now : UInt64} {bound : Nat} (h0 : 0 < s.lastTime)
    (h : s.lastTime < now) (hcount : s.count.toNat + 1 < 2 ^ 32) (hbound : bound < 2 ^ 63)
    (hmean : s.mean.toNat ≤ bound) (hobs : s.observation now ≤ bound) :
    NoWrap s now ∧ (s.observe now).2.mean.toNat ≤ bound := by
  have hbefore := deviation_eq h (Nat.lt_of_le_of_lt hobs hbound)
    (Nat.lt_of_le_of_lt hmean hbound)
  -- the mean moves towards the observation and not past it, so it stays below their common bound
  have hshare := share_between ((s.observation now : Int) - s.mean.toNat) (s.count.toNat + 1)
  have hsucc : (saturatingSucc s.count).toNat = s.count.toNat + 1 := by
    rw [toNat_saturatingSucc]
    omega
  have hmoved : ((s.observe now).2.mean.toNat : Int) =
      s.mean.toNat + ((s.observation now : Int) - s.mean.toNat).tdiv (s.count.toNat + 1 : Nat) := by
    rw [observe_of_lt h0 h]
    show ((UInt64.ofInt (s.mean.toNat + (deviation (now - s.lastTime) s.mean).tdiv
      (saturatingSucc s.count).toNat)).toNat : Int) = _
    rw [hbefore, hsucc]
    exact toNat_ofInt_of_range (by omega) (by omega)
  have hle : (s.observe now).2.mean.toNat ≤ bound := by omega
  have hlt : (s.observe now).2.mean.toNat < 2 ^ 63 := by omega
  exact ⟨{ later := h
           count_lt := hcount
           observation_lt := by omega
           mean_lt := by omega
           before := hbefore
           moved := hmoved
           moved_lt := hlt
           after := deviation_eq h (by omega) hlt }, hle⟩

theorem NoWrap.toNat_count {s : IntervalStats} {now : UInt64} (h : NoWrap s now)
    (h0 : 0 < s.lastTime) : (s.observe now).2.count.toNat = s.count.toNat + 1 := by
  have hlt := h.count_lt
  rw [observe_of_lt h0 h.later]
  show (saturatingSucc s.count).toNat = _
  rw [toNat_saturatingSucc]
  omega

/-! ## Runs -/

/-- What a fresh item's statistics keep of the times so far. -/
structure Tracks (s : IntervalStats) (ts : List UInt64) : Prop where
  lastTime : ts.getLast? = some s.lastTime
  count : s.count.toNat = ts.length
  mean_le : s.mean.toNat ≤ scale * longest ts
  /-- The remainders of the steps add up. -/
  error_le : |meanError (observations ts) s.mean.toNat| ≤ (ts.length * (ts.length - 1) / 2 : Nat)

/-- The first time starts the statistics. -/
theorem tracks_singleton (t : UInt64) : Tracks (({} : IntervalStats).observeAll [t]) [t] where
  lastTime := rfl
  count := rfl
  mean_le := Nat.zero_le _
  error_le := by
    rw [show (({} : IntervalStats).observeAll [t]).mean = 0 from rfl]
    simp [meanError, observations, intervals]

theorem Tracks.length_pos {s : IntervalStats} {ts : List UInt64} (h : Tracks s ts) :
    0 < ts.length :=
  List.length_pos_of_mem (List.mem_of_getLast? h.lastTime)

theorem Tracks.observation_mem {s : IntervalStats} {ts : List UInt64} (h : Tracks s ts)
    (now : UInt64) : s.observation now ∈ observations (ts ++ [now]) := by
  rw [observations_append_singleton h.lastTime]
  simp [observation]

/-- The next time in order makes a step that does not wrap. -/
theorem Tracks.noWrap {s : IntervalStats} {ts : List UInt64} {now : UInt64} (h : Tracks s ts)
    (ho : InOrder (ts ++ [now])) :
    0 < s.lastTime ∧ NoWrap s now ∧
      (s.observe now).2.mean.toNat ≤ scale * longest (ts ++ [now]) := by
  have hpos : 0 < s.lastTime := ho.of_append.getLast_pos h.lastTime
  have hlen := ho.length_le
  rw [List.length_append, List.length_singleton] at hlen
  refine ⟨hpos, noWrap_of_le hpos (ho.getLast_lt h.lastTime) ?_ ho.scale_longest_lt ?_ ?_⟩
  · rw [h.count]
    omega
  · exact Nat.le_trans h.mean_le (Nat.mul_le_mul_left _ (longest_le_append ts [now]))
  · exact le_scale_longest (h.observation_mem now)

/-- The next time in order keeps the statistics on track. -/
theorem Tracks.observe {s : IntervalStats} {ts : List UInt64} {now : UInt64} (h : Tracks s ts)
    (ho : InOrder (ts ++ [now])) : Tracks (s.observe now).2 (ts ++ [now]) := by
  obtain ⟨hpos, hstep, hmean⟩ := h.noWrap ho
  have hlen : (ts ++ [now]).length = ts.length + 1 := by simp
  refine ⟨?_, ?_, hmean, ?_⟩
  · rw [observe_of_lt hpos hstep.later, List.getLast?_append_of_ne_nil _ (by simp)]
    rfl
  · rw [hstep.toNat_count hpos, h.count, hlen]
  · have hold := length_observations h.lastTime
    -- the `n`th remainder is at most `n - 1`, the next term of the triangular number
    rw [hlen, Nat.triangle_succ, observations_append_singleton h.lastTime, ← observation,
      hstep.moved, meanError_append_singleton, hold, h.count, Nat.cast_add]
    exact (abs_sub _ _).trans (add_le_add h.error_le (abs_remainder_le _ _))

/-- Fresh statistics track every list of times in order. -/
theorem tracks_of_inOrder {t : UInt64} {ts : List UInt64} (h : InOrder (t :: ts)) :
    Tracks (({} : IntervalStats).observeAll (t :: ts)) (t :: ts) := by
  induction ts using List.reverseRecOn with
  | nil => exact tracks_singleton t
  | append_singleton ts now ih =>
      rw [← List.cons_append] at h ⊢
      rw [observeAll_append]
      exact (ih h.of_append).observe h

/-- While times come in order, no step wraps, the mean stays between zero and the largest
observation after every step, and in the end `n` times the mean is the scaled distance between the
first and the last time, but for the remainders. -/
theorem mean_of_inOrder {t : UInt64} {ts : List UInt64} (h : InOrder (t :: ts)) :
    (∀ before now after, ts = before ++ now :: after →
      NoWrap (({} : IntervalStats).observeAll (t :: before)) now) ∧
    (∀ before, before <+: t :: ts →
      (({} : IntervalStats).observeAll before).mean.toNat ≤ scale * longest (t :: ts)) ∧
    |((t :: ts).length : Int) * (({} : IntervalStats).observeAll (t :: ts)).mean.toNat -
        scale * (((t :: ts).getLast (by simp)).toNat - t.toNat)| ≤
      ((t :: ts).length * ((t :: ts).length - 1) / 2 : Nat) := by
  refine ⟨?_, ?_, ?_⟩
  · rintro before now after rfl
    have hsplit : InOrder ((t :: before ++ [now]) ++ after) := by simpa using h
    have hbefore : InOrder ((t :: before) ++ [now]) := hsplit.of_append
    exact ((tracks_of_inOrder hbefore.of_append).noWrap hbefore).2.1
  · rintro before ⟨after, hafter⟩
    cases before with
    | nil => exact Nat.zero_le _
    | cons u before =>
        rw [List.cons_append, List.cons.injEq] at hafter
        obtain ⟨rfl, rfl⟩ := hafter
        rw [← List.cons_append] at h ⊢
        exact Nat.le_trans (tracks_of_inOrder h.of_append).mean_le
          (Nat.mul_le_mul_left _ (longest_le_append _ _))
  · have htracks := tracks_of_inOrder h
    have herror := htracks.error_le
    rw [meanError, length_observations htracks.lastTime, sum_observations, Nat.cast_mul] at herror
    rw [← sum_intervals h.rising, Nat.cast_add, add_sub_cancel_left]
    exact herror

/-- Three distances, the second of them the longest that is allowed. -/
theorem mean_of_four_times :
    InOrder [1, 2, 9007199254740993, 9007199254740995] ∧
      |((4 : Nat) : Int) * (({} : IntervalStats).observeAll
          [1, 2, 9007199254740993, 9007199254740995]).mean.toNat -
        scale * (((9007199254740995 : UInt64).toNat : Int) - (1 : UInt64).toNat)| ≤
      ((6 : Nat) : Int) :=
  have h : InOrder [1, 2, 9007199254740993, 9007199254740995] := by decide
  ⟨h, (mean_of_inOrder h).2.2⟩

end IntervalStats

end AccessSampling
