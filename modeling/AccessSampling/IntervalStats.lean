import AccessSampling.FixedWidth

/-!
# Statistics of access intervals

Every sampled item carries a one-pass estimate of the mean of its access intervals and of the sum
of their squared deviations. Both are scaled by 1024, so that the integer divisions of a step keep
ten bits of fraction. A time of zero marks an item that was never sampled, hence an item whose only
sample came at time zero still counts as new.
-/

namespace AccessSampling

/-- The running statistics of one item. -/
structure IntervalStats where
  /-- The time of the last accepted sample, zero if there was none. -/
  lastTime : UInt64 := 0
  /-- The number of accepted samples, the first one included. -/
  count : UInt32 := 0
  /-- The mean interval, times 1024. -/
  mean : UInt64 := 0
  /-- The sum of squared deviations, times 1024. -/
  m2 : UInt64 := 0
  deriving DecidableEq, Repr

/-- What became of one sample time. -/
inductive Observation where
  /-- It was the first of its item, and only the time was kept. -/
  | coldStart
  /-- It was not after the last accepted one and was dropped. -/
  | outOfOrder
  /-- Its distance from the last accepted one was folded into the statistics. -/
  | accepted (interval : UInt64)
  deriving DecidableEq, Repr

namespace IntervalStats

/-- The scale of means and deviations. -/
def scale : Nat := 1024

/-- The deviation of a new interval from a mean, as the signed reading of 64 bits. -/
def deviation (interval mean : UInt64) : Int :=
  wrapSigned 64 (scale * interval.toNat - mean.toNat)

/-- The statistics after an interval that ends at `now`. The mean moves by its share of the
deviation, rounded towards zero; the sum of squares grows by the product of the deviations from the
old and from the new mean, brought back to scale. -/
def extend (s : IntervalStats) (now interval : UInt64) : IntervalStats :=
  let count := saturatingSucc s.count
  let before := deviation interval s.mean
  let mean := UInt64.ofInt (s.mean.toNat + before.tdiv count.toNat)
  let after := deviation interval mean
  { lastTime := now
    count
    mean
    m2 := saturatingAdd s.m2 (clampSigned 64 (before * after / scale)) }

/-- Feeds one sample time. -/
def observe (s : IntervalStats) (now : UInt64) : Observation × IntervalStats :=
  if s.lastTime = 0 then
    (.coldStart, { lastTime := now, count := 1 })
  else if now ≤ s.lastTime then
    (.outOfOrder, s)
  else
    (.accepted (now - s.lastTime), s.extend now (now - s.lastTime))

/-- The statistics after a run of sample times. -/
def observeAll (s : IntervalStats) (times : List UInt64) : IntervalStats :=
  times.foldl (fun s now => (s.observe now).2) s

/-- The variance of the intervals, times 1024, once there is an interval. -/
def variance? (s : IntervalStats) : Option UInt64 :=
  if 1 < s.count then some (s.m2 / (s.count.toUInt64 - 1)) else none

/-- How much the intervals fluctuated in total, once there is a sample. -/
def fluctuation? (s : IntervalStats) : Option UInt64 :=
  if 1 ≤ s.count then some s.m2 else none

@[simp] theorem observeAll_nil (s : IntervalStats) : s.observeAll [] = s := rfl

@[simp] theorem observeAll_cons (s : IntervalStats) (t : UInt64) (ts : List UInt64) :
    s.observeAll (t :: ts) = (s.observe t).2.observeAll ts := rfl

theorem observeAll_append (s : IntervalStats) (ts us : List UInt64) :
    s.observeAll (ts ++ us) = (s.observeAll ts).observeAll us :=
  List.foldl_append

/-- A dropped time leaves every field as it was. -/
theorem observe_of_le {s : IntervalStats} {now : UInt64} (h0 : s.lastTime ≠ 0)
    (h : now ≤ s.lastTime) : s.observe now = (.outOfOrder, s) := by
  simp [observe, h0, h]

/-- Whatever the statistics were, the last time is then the later one. -/
theorem lastTime_observe (s : IntervalStats) (now : UInt64) :
    (s.observe now).2.lastTime.toNat = max s.lastTime.toNat now.toNat := by
  unfold observe
  split
  · rename_i hcold
    rw [hcold]
    exact (Nat.zero_max _).symm
  · split
    · rename_i hle
      exact (Nat.max_eq_left (UInt64.le_iff_toNat_le.1 hle)).symm
    · rename_i hlt
      have hlt' := UInt64.lt_iff_toNat_lt.1 (UInt64.not_le.1 hlt)
      exact (Nat.max_eq_right (Nat.le_of_lt hlt')).symm

end IntervalStats

end AccessSampling
