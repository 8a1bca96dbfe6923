import AccessSampling.Counters
import AccessSampling.Resolver
import AccessSampling.RingBuffer
import AccessSampling.Tally

/-!
# The intake

The intake consumes records one at a time. A sample is accepted if its address is reportable and
resolves to an item; then it counts for its class and for the item. Every record bumps exactly one
of the counters that tell the records apart, and each time the accepted samples reach a multiple of
the milestone, a line is logged.
-/

namespace AccessSampling

/-- Where the drained records end up. -/
structure Intake (ρ ι : Type) where
  resolver : ρ
  tally : Tally ι
  window : ReadWindow := {}
  counters : Counters := {}
  log : Array LogLine := #[]

namespace Intake

variable {ρ ι : Type}

/-- Logs a milestone if the accepted samples have just reached one; zero stands for none. -/
def checkMilestone (i : Intake ρ ι) (milestone : Nat) : Intake ρ ι :=
  if 0 < milestone ∧ i.counters.sampled % milestone = 0 then
    { i with
      window := i.window.passMilestone
      log := i.log.push (.milestone
        { sampled := i.counters.sampled
          dram := i.window.dram
          nvm := i.window.nvm
          write := i.window.write
          throttled := i.counters.throttled }) }
  else i

/-- Logs a report and starts the next window of the hit ratio. -/
def report (i : Intake ρ ι) (samplePeriod cpuPermil : Option Nat) : Intake ρ ι :=
  { i with
    window := i.window.passReport
    log := i.log.push (.report
      { sampled := i.counters.sampled, samplePeriod, cpuPermil, hitRatio := i.window.hitRatio }) }

variable [Resolver ρ ι] [DecidableEq ι]

/-- Counts an accepted sample. -/
def accept (i : Intake ρ ι) (milestone : Nat) (c : EventClass) (item : ι) (time : UInt64) :
    Intake ρ ι :=
  let (seen, tally) := i.tally.record c item time
  checkMilestone
    { i with
      tally
      window := i.window.count c
      counters := i.counters.countSample c seen }
    milestone

def consumeSample (i : Intake ρ ι) (milestone : Nat) (c : EventClass) (s : Sample) : Intake ρ ι :=
  if Resolver.isReportable i.resolver s.addr then
    match Resolver.resolve i.resolver s.addr s.task.pid s.time with
    | (some item, resolver) => { i with resolver }.accept milestone c item s.time
    | (none, resolver) =>
      { i with
        resolver
        counters := { i.counters with unresolved := i.counters.unresolved + 1 } }
  else
    { i with counters := { i.counters with unreportable := i.counters.unreportable + 1 } }

/-- Consumes a record that a ring of a class gave up. -/
def consume (i : Intake ρ ι) (milestone : Nat) (c : EventClass) : Record → Intake ρ ι
  | .sample s => i.consumeSample milestone c s
  | .throttle _ | .unthrottle _ =>
    { i with counters := { i.counters with throttled := i.counters.throttled + 1 } }
  | .lostSamples _ => { i with counters := { i.counters with lost := i.counters.lost + 1 } }
  | .other _ => { i with counters := { i.counters with unknown := i.counters.unknown + 1 } }

def consumeAll (i : Intake ρ ι) (milestone : Nat) (c : EventClass) (rs : List Record) :
    Intake ρ ι :=
  rs.foldl (fun i r => i.consume milestone c r) i

/-- Counts a visit that found its ring empty. -/
def countSkip (i : Intake ρ ι) : Intake ρ ι :=
  { i with counters := { i.counters with skipped := i.counters.skipped + 1 } }

/-- Consumes what a visit of a ring of a class took. -/
def consumeVisit (i : Intake ρ ι) (milestone : Nat) (c : EventClass) (v : Visit) : Intake ρ ι :=
  let i := i.consumeAll milestone c v.taken
  if v.foundEmpty then i.countSkip else i

end Intake

end AccessSampling
