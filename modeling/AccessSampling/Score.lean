import AccessSampling.HotHeap
import AccessSampling.IntervalStats
import AccessSampling.Options

/-!
# Scores

A class is judged by three sub-scores, each from zero to `fullScore`: how much the access intervals
of its tracked items fluctuate, how often these items are hit, and how many samples the class has
cost so far. Their weighted sum is the raw composite, and its place in the range that the weights
allow is the normalized one.
-/

namespace AccessSampling

/-- The scores and periods of one class as of the latest cycle. -/
structure Metrics where
  vibrate : Nat := 0
  hotness : Nat := 0
  overhead : Nat := 0
  /-- The weighted sum of the sub-scores, as the signed reading of 32 bits. -/
  raw : Int := 0
  /-- The place of the weighted sum in its range. -/
  composite : Nat := 0
  targetPeriod : Nat := 0
  currentPeriod : Nat := 0
  smoothedPeriod : Nat := 0
  deriving DecidableEq, Repr

/-- A value as a share of a ceiling. A value that reaches the ceiling has the full score, so a
ceiling of zero is always reached. -/
def ratioScore (value ceiling : Nat) : Nat :=
  if ceiling ≤ value then fullScore else value * fullScore / ceiling

/-- How volatile the access intervals of the sampled items are, on average. -/
def vibrateScore {ι : Type} (entries : List (HeapEntry ι)) (stats : ι → IntervalStats)
    (flucMax : Nat) : Nat :=
  let flucs := entries.filterMap fun e => (stats e.item).fluctuation?.map UInt64.toNat
  if flucs = [] then 0 else ratioScore (flucs.foldr (· + ·) 0 / flucs.length) flucMax

/-- How often the items are hit, on average, and up to one percent more for a full heap: many
distinct hot items count for something. -/
def hotnessScore {ι : Type} (entries : List (HeapEntry ι)) (capacity hitMax : Nat) : Nat :=
  if entries = [] then 0
  else
    let hits := (entries.map fun e => e.hits.toNat).foldr (· + ·) 0
    min fullScore (ratioScore (hits / entries.length) hitMax + entries.length * 100 / capacity)

def overheadScore (samples overheadMax : Nat) : Nat := ratioScore samples overheadMax

/-- The weighted sum of sub-scores, rounded towards zero. -/
def Weights.weigh (w : Weights) (vibrate hotness overhead : Nat) : Int :=
  (w.vibrate * vibrate + w.hotness * hotness + w.overhead * overhead).tdiv fullScore

/-- The place of a composite in the range that the weights allow. -/
def Weights.normalize (w : Weights) (raw : Int) : Nat :=
  if raw ≤ w.lowest then 0
  else if w.highest ≤ raw then fullScore
  else ((raw - w.lowest) * fullScore / (w.highest - w.lowest)).toNat

/-- The metrics of three sub-scores, without periods. -/
def Metrics.ofSubscores (w : Weights) (vibrate hotness overhead : Nat) : Metrics :=
  let raw := w.weigh vibrate hotness overhead
  { vibrate, hotness, overhead, raw := wrapSigned 32 raw, composite := w.normalize raw }

/-- The metrics of a heap and a number of samples, without periods. -/
def HotHeap.metrics {ι : Type} (h : HotHeap ι) (stats : ι → IntervalStats) (samples : Nat)
    (o : ScoreOptions) : Metrics :=
  .ofSubscores o.weights (vibrateScore h.entries.toList stats o.flucMax)
    (hotnessScore h.entries.toList h.capacity o.hitMax) (overheadScore samples o.overheadMax)

end AccessSampling
