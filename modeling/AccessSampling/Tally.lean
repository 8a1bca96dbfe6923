import AccessSampling.ItemTable
import AccessSampling.Score

/-!
# The tally of accepted samples

What the accepted samples add up to: a heap of hot items and a number of samples for each class,
and the interval statistics of the items, which all classes share.
-/

namespace AccessSampling

/-- The heaps, the sample counters and the item statistics. -/
structure Tally (ι : Type) where
  heaps : PerClass (HotHeap ι)
  samples : PerClass Nat := .replicate 0
  stats : ItemTable ι := .empty

namespace Tally

variable {ι : Type}

/-- The tally of no samples, with heaps of one capacity. -/
def empty (capacity : Nat) : Tally ι := { heaps := .replicate { capacity } }

def clearHeaps (t : Tally ι) : Tally ι := { t with heaps := t.heaps.map HotHeap.clear }

variable [DecidableEq ι]

/-- Counts one sample of an item: its time, the sample and the hit. -/
def record (t : Tally ι) (c : EventClass) (item : ι) (time : UInt64) : Observation × Tally ι :=
  let (seen, stats) := t.stats.observe item time
  (seen,
    { heaps := t.heaps.modify c fun h => (h.recordHit item).2
      samples := t.samples.modify c (· + 1)
      stats })

/-- The scores of a class, without periods. -/
def metrics (t : Tally ι) (o : ScoreOptions) (c : EventClass) : Metrics :=
  (t.heaps.get c).metrics t.stats.get (t.samples.get c) o

end Tally

end AccessSampling
