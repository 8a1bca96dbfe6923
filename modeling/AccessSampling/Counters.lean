import AccessSampling.EventClass
import AccessSampling.IntervalStats

/-!
# Counters and log lines

`Counters` only ever grow. A `ReadWindow` counts what was sampled since the last milestone and since
the last report; the two have separate counts of reads, so neither disturbs the other.
-/

namespace AccessSampling

structure Counters where
  sampled : Nat := 0
  dram : Nat := 0
  nvm : Nat := 0
  write : Nat := 0
  throttled : Nat := 0
  lost : Nat := 0
  /-- Records of a kind that is not decoded. -/
  unknown : Nat := 0
  /-- Visits that found a ring empty. -/
  skipped : Nat := 0
  /-- Samples whose address is not reportable. -/
  unreportable : Nat := 0
  /-- Samples for which there was no item. -/
  unresolved : Nat := 0
  /-- Accepted samples that were not after the item's last one. -/
  outOfOrder : Nat := 0
  /-- Reads and writes of periods that the event source refused. -/
  periodFailures : Nat := 0
  /-- Adaptive cycles whose budget could not be met. -/
  budgetInfeasible : Nat := 0
  deriving DecidableEq, Repr

/-- One for a proposition that holds and zero for one that does not. -/
def countIf (p : Prop) [Decidable p] : Nat := if p then 1 else 0

/-- The counters after one more accepted sample of a class. -/
def Counters.countSample (k : Counters) (c : EventClass) (seen : Observation) : Counters :=
  { k with
    sampled := k.sampled + 1
    dram := k.dram + countIf (c = .dramRead)
    nvm := k.nvm + countIf (c = .nvmRead)
    write := k.write + countIf (c = .memWrite)
    outOfOrder := k.outOfOrder + countIf (seen = .outOfOrder) }

/-! ## Windows -/

/-- What was sampled since the last milestone and since the last report. -/
structure ReadWindow where
  dram : Nat := 0
  nvm : Nat := 0
  write : Nat := 0
  /-- Reads of fast memory since the last report. -/
  reportDram : Nat := 0
  /-- Reads of slow memory since the last report. -/
  reportNvm : Nat := 0
  deriving DecidableEq, Repr

namespace ReadWindow

def count (w : ReadWindow) (c : EventClass) : ReadWindow :=
  { dram := w.dram + countIf (c = .dramRead)
    nvm := w.nvm + countIf (c = .nvmRead)
    write := w.write + countIf (c = .memWrite)
    reportDram := w.reportDram + countIf (c = .dramRead)
    reportNvm := w.reportNvm + countIf (c = .nvmRead) }

/-- The share of fast reads since the last report, in ten-thousandths; zero without reads. -/
def hitRatio (w : ReadWindow) : Nat := w.reportDram * 10000 / (w.reportDram + w.reportNvm)

def passMilestone (w : ReadWindow) : ReadWindow := { w with dram := 0, nvm := 0, write := 0 }

def passReport (w : ReadWindow) : ReadWindow := { w with reportDram := 0, reportNvm := 0 }

end ReadWindow

/-! ## Log lines -/

/-- What a milestone tells: the samples so far, the reads and writes since the previous milestone
and the throttle records so far. -/
structure Milestone where
  sampled : Nat
  dram : Nat
  nvm : Nat
  write : Nat
  throttled : Nat
  deriving DecidableEq, Repr

structure Report where
  sampled : Nat
  /-- The coarse period of the base tier, if the quota loop runs. -/
  samplePeriod : Option Nat
  /-- The worker's use of a CPU since the previous report, if it is known. -/
  cpuPermil : Option Nat
  hitRatio : Nat
  deriving DecidableEq, Repr

inductive LogLine where
  | milestone (m : Milestone)
  | report (r : Report)
  deriving DecidableEq, Repr

end AccessSampling
