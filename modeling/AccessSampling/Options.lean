import AccessSampling.Duration
import AccessSampling.PerClass

/-!
# Options

What a host may choose, with the values the sampler was tuned with as defaults. Scores and weights
are counted in units of `fullScore`, a ten-thousandth.
-/

namespace AccessSampling

/-- The score that stands for one hundred percent. -/
def fullScore : Nat := 10000

/-! ## Scores -/

/-- The weights of the three sub-scores in the composite, in units of `fullScore`. -/
structure Weights where
  vibrate : Int := 4000
  hotness : Int := 5000
  /-- Negative as a rule: the cost of sampling lowers a score. -/
  overhead : Int := -1000
  deriving DecidableEq, Repr

namespace Weights

/-- The lowest composite that sub-scores up to `fullScore` can reach: every negative weight counts
in full and no other does. -/
def lowest (w : Weights) : Int := min w.vibrate 0 + min w.hotness 0 + min w.overhead 0

/-- The highest composite that sub-scores up to `fullScore` can reach. -/
def highest (w : Weights) : Int := max w.vibrate 0 + max w.hotness 0 + max w.overhead 0

end Weights

/-- The ceilings and weights of the scores. -/
structure ScoreOptions where
  /-- The average fluctuation that earns a full vibrate score. -/
  flucMax : Nat := 20000000000000000
  /-- The average hit count that earns a full hotness score. -/
  hitMax : Nat := 100
  /-- The number of samples that earns a full overhead score. -/
  overheadMax : Nat := 10000
  weights : Weights := {}
  deriving DecidableEq, Repr

/-! ## Periods -/

/-- A fraction, meant to lie between zero and one. -/
structure Ratio where
  num : Nat
  den : Nat
  deriving DecidableEq, Repr

/-- The adaptive loop, which retunes each class by its score. -/
structure PeriodOptions where
  /-- The period of a full score, where sampling is most frequent. -/
  min : Nat := 2000
  /-- The period of a zero score. -/
  max : Nat := 200000
  /-- The weight of the target period when periods are smoothed. -/
  ema : Ratio := ⟨3, 10⟩
  /-- The number of samples that all classes together may take in an interval. -/
  budget : Nat := 50000
  interval : Duration := .ofParts 10 0
  deriving DecidableEq, Repr

/-- The quota loop, which keeps the drain worker within its share of a CPU. -/
structure QuotaOptions where
  /-- The quota in permil of a CPU; zero turns the loop off. -/
  cpuPermil : Nat := 30
  /-- Half the width of the dead band around the quota, in permil. -/
  tolerancePermil : Nat := 5
  window : Duration := .ofParts 15 0
  /-- The coarse periods of the base tier, finest first. -/
  basePeriods : List Nat := [5000, 10007, 20011, 40009, 80021, 160001, 200003]
  /-- The coarse periods of the instruction tier, finest first. -/
  instrPeriods : List Nat :=
    [500000, 1000003, 2000003, 4000037, 8000009, 16000057, 20000003]
  deriving DecidableEq, Repr

namespace QuotaOptions

def steps (q : QuotaOptions) : Nat := q.basePeriods.length

/-- The coarse period of a tier at a step; a fixed class has none. -/
def period? (q : QuotaOptions) (t : Tier) (step : Nat) : Option Nat :=
  match t with
  | .base => q.basePeriods[step]?
  | .instr => q.instrPeriods[step]?
  | .fixed => none

@[simp] theorem period?_fixed (q : QuotaOptions) (step : Nat) : q.period? .fixed step = none := rfl

end QuotaOptions

/-! ## Draining -/

/-- The pace of the drain worker. -/
structure DrainOptions where
  /-- The fill, in percent of a ring's size, above which the ring is drained in a tight loop. -/
  highWatermark : Nat := 50
  /-- The fill, in percent of a ring's size, below which the ring gives one record per pass. -/
  lowWatermark : Nat := 10
  sleep : Duration := .ofMillis 2
  reportInterval : Duration := .ofMillis 1500
  /-- A milestone is logged each time this many samples were taken; zero logs none. -/
  milestone : Nat := 500000
  deriving DecidableEq, Repr

/-! ## Classes -/

/-- How one class starts out. -/
structure ClassOptions where
  initialPeriod : Nat := 5000
  /-- Keeps the class out of both period loops. -/
  fixed : Bool := false
  deriving DecidableEq, Repr

/-- The start of a class as its tier suggests it. -/
def ClassOptions.ofTier : Tier → ClassOptions
  | .base => {}
  | .instr => { initialPeriod := 500000 }
  | .fixed => { initialPeriod := 50000, fixed := true }

/-- Everything a host may choose. -/
structure Options where
  /-- The capacity of each class's hot item heap. -/
  heapCapacity : Nat := 1000
  score : ScoreOptions := {}
  period : PeriodOptions := {}
  quota : QuotaOptions := {}
  drain : DrainOptions := {}
  classes : PerClass ClassOptions := .ofFn fun c => .ofTier c.tier
  deriving DecidableEq, Repr

/-- The classes that the period loops may retune. -/
def Options.adaptiveClasses (o : Options) : List EventClass :=
  EventClass.all.filter fun c => !(o.classes.get c).fixed

theorem Options.mem_adaptiveClasses {o : Options} {c : EventClass} :
    c ∈ o.adaptiveClasses ↔ (o.classes.get c).fixed = false := by
  simp [adaptiveClasses]

end AccessSampling
