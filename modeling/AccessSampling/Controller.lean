import AccessSampling.AdaptiveLoop
import AccessSampling.Drain
import AccessSampling.QuotaLoop

/-!
# The controller

The controller opens the rings of all classes on all CPUs, programs the initial periods and enables
the classes. Then its drain worker takes turns, each a pass over the rings, a quota step if its
window is over and a report if one is due, and the adaptive loop runs its cycles, until a shutdown
disables the classes again, in the order in which they were enabled.

What can fail while it starts is undone: the classes that were enabled so far are disabled again.
-/

namespace AccessSampling

/-- The monitoring view of a class. -/
structure ClassSnapshot where
  cls : EventClass
  /-- The items that the heap of the class tracks. -/
  heapSize : Nat
  /-- The normalized composite of the latest cycle. -/
  compositeScore : Nat
  currentPeriod : Nat
  cumulativeSamples : Nat
  deriving DecidableEq, Repr

/-- The state of the sampler. -/
structure Controller (ρ ι : Type) where
  options : Options
  writer : PeriodWriter
  loop : AdaptiveLoop
  quota : QuotaLoop := {}
  drain : Drain ρ ι
  metrics : PerClass Metrics := .replicate {}
  /-- The classes that were enabled, in order. -/
  enabled : List EventClass
  /-- Whether there was no shutdown yet. -/
  running : Bool := true

/-- Why a controller did not start, and the event source as it was left. -/
structure InitFailure where
  error : Error
  source : EventSource

namespace Controller

variable {ρ ι : Type}

/-! ## Start -/

/-- Opens the rings of some pairs of a CPU and a class, up to the first refusal. -/
def openRings : List (Nat × EventClass) → EventSource →
    Except Refusal (List Ring) × EventSource
  | [], s => (.ok [], s)
  | (cpu, cls) :: rest, s =>
    match s.openRing cpu cls with
    | (.error r, s) => (.error r, s)
    | (.ok none, s) => openRings rest s
    | (.ok (some id), s) =>
      match openRings rest s with
      | (.error r, s) => (.error r, s)
      | (.ok rings, s) => (.ok ({ cpu, cls, id } :: rings), s)

/-- Every pair of a CPU and a class, CPU by CPU. -/
def ringTable (cpus : List Nat) : List (Nat × EventClass) :=
  cpus.flatMap fun cpu => EventClass.all.map fun c => (cpu, c)

/-- The classes that have a ring on some CPU. -/
def availableClasses (rings : List Ring) : List EventClass :=
  EventClass.all.filter fun c => rings.any fun r => r.cls = c

/-- Programs the initial periods of some classes and enables them, up to the first refusal. Returns
the classes that were enabled, too. -/
def startClasses (o : Options) : List EventClass → PeriodWriter →
    Except Refusal Unit × List EventClass × PeriodWriter
  | [], w => (.ok (), [], w)
  | c :: rest, w =>
    match w.set c (o.classes.get c).initialPeriod with
    | (.error r, w) => (.error r, [], w)
    | (.ok (), w) =>
      match w.source.enable c with
      | (.error r, source) => (.error r, [], { w with source })
      | (.ok (), source) =>
        let (result, started, w) := startClasses o rest { w with source }
        (result, c :: started, w)

/-- Disables some classes. A refusal does not keep the others from being disabled. -/
def stopClasses (cs : List EventClass) (s : EventSource) : EventSource :=
  cs.foldl (fun s c => (s.disable c).2) s

def init (o : Options) (source : EventSource) (resolver : ρ) :
    Except InitFailure (Controller ρ ι) :=
  match o.fault? with
  | some fault => .error { error := .invalidOptions fault, source }
  | none =>
    match openRings (ringTable source.cpus) source with
    | (.error r, source) => .error { error := .eventSource r, source }
    | (.ok rings, source) =>
      let available := availableClasses rings
      let known := o.classes.map ClassOptions.initialPeriod
      match startClasses o available { source, known } with
      | (.error r, started, w) =>
        .error { error := .eventSource r, source := stopClasses started w.source }
      | (.ok (), started, w) =>
        .ok
          { options := o
            writer := w
            loop :=
              { options := o.period
                adaptive := o.adaptiveClasses.filter (· ∈ available) }
            drain :=
              { store := .ofSize source.ringSize
                rings
                intake := { resolver, tally := .empty o.heapCapacity } }
            enabled := started }

/-! ## Views -/

def source (c : Controller ρ ι) : EventSource := c.writer.source

def tally (c : Controller ρ ι) : Tally ι := c.drain.intake.tally

def counters (c : Controller ρ ι) : Counters := c.drain.intake.counters

/-- The monitoring view of every class. -/
def snapshot (c : Controller ρ ι) : PerClass ClassSnapshot :=
  .ofFn fun cls =>
    { cls
      heapSize := (c.tally.heaps.get cls).size
      compositeScore := (c.metrics.get cls).composite
      currentPeriod := c.writer.known.get cls
      cumulativeSamples := c.tally.samples.get cls }

/-- Whether the drain worker has rings to visit. -/
def isDraining (c : Controller ρ ι) : Bool := c.running && !c.drain.rings.isEmpty

/-! ## Changes from outside -/

def modifySource (c : Controller ρ ι) (f : EventSource → EventSource) : Controller ρ ι :=
  { c with writer := { c.writer with source := f c.writer.source } }

def modifyCounters (c : Controller ρ ι) (f : Counters → Counters) : Controller ρ ι :=
  { c with drain := { c.drain with intake := { c.drain.intake with counters := f c.counters } } }

/-- The controller after the hardware wrote records to a ring. -/
def push (c : Controller ρ ι) (cpu : Nat) (cls : EventClass) (rs : List Record) :
    Controller ρ ι :=
  { c with drain := c.drain.push (.hardware cpu cls) rs }

/-! ## The drain worker -/

/-- Counts refused reads and writes of periods. -/
def countPeriodFailures (c : Controller ρ ι) (failed : Nat) : Controller ρ ι :=
  c.modifyCounters fun k => { k with periodFailures := k.periodFailures + failed }

/-- Feeds a window to the quota loop and, if the coarse index moved, writes the coarse periods. A
quota of zero turns the loop off. -/
def quotaStep (c : Controller ρ ι) (u : Usage) : Controller ρ ι :=
  if c.options.quota.cpuPermil = 0 then c
  else
    let (step, quota) := c.quota.observe u c.options.quota
    if step = .hold then { c with quota }
    else
      let (failed, writer) := quota.apply c.writer c.loop.adaptive c.options.quota
      countPeriodFailures { c with quota, writer } failed

def report (c : Controller ρ ι) (u : Usage) : Controller ρ ι :=
  let samplePeriod :=
    if c.options.quota.cpuPermil = 0 then none
    else c.options.quota.period? .base c.quota.index
  { c with drain := c.drain.report samplePeriod (some u.permil) }

section Drain

variable [Resolver ρ ι] [DecidableEq ι]

def drainPass (c : Controller ρ ι) : Controller ρ ι :=
  { c with drain := (c.drain.pass c.options.drain).2 }

/-- One turn of the drain worker: a pass, a quota step if its window is over, and a report if one is
due. After a shutdown there is no worker. -/
def turn (c : Controller ρ ι) (quotaWindow reportWindow : Option Usage) : Controller ρ ι :=
  if c.running then
    let c := c.drainPass
    let c := match quotaWindow with
      | none => c
      | some u => c.quotaStep u
    match reportWindow with
    | none => c
    | some u => c.report u
  else c

end Drain

/-! ## The adaptive loop -/

/-- Runs an adaptive cycle; after a shutdown there is none. -/
def adapt [DecidableEq ι] (c : Controller ρ ι) : Option Cycle × Controller ρ ι :=
  if c.running then
    let r := c.loop.adapt c.writer c.tally c.options.score
    let c := { c with loop := r.loop, writer := r.writer, metrics := r.metrics }
    let c := c.modifyCounters fun k =>
      { k with
        periodFailures := k.periodFailures + r.cycle.failed
        budgetInfeasible :=
          k.budgetInfeasible + match r.cycle.budget with
            | .infeasible _ _ => 1
            | _ => 0 }
    (some r.cycle, c)
  else (none, c)

/-! ## Shutdown -/

/-- Scores every class once more; targets and smoothed periods stay those of the latest cycle. -/
def rescore [DecidableEq ι] (c : Controller ρ ι) : Controller ρ ι :=
  { c with
    metrics := .ofFn fun cls =>
      { c.tally.metrics c.options.score cls with
        targetPeriod := (c.metrics.get cls).targetPeriod
        smoothedPeriod := (c.metrics.get cls).smoothedPeriod
        currentPeriod := c.writer.known.get cls } }

def clearHeaps (c : Controller ρ ι) : Controller ρ ι :=
  { c with
    drain := { c.drain with intake := { c.drain.intake with tally := c.tally.clearHeaps } } }

/-- Stops sampling: disables the classes, scores them while the heaps still hold what was sampled,
and releases the heaps. A second shutdown does nothing. -/
def shutdown [DecidableEq ι] (c : Controller ρ ι) : Controller ρ ι :=
  if c.running then
    let c := { c with running := false }
    let c := c.modifySource (stopClasses c.enabled)
    c.rescore.clearHeaps
  else c

end Controller

end AccessSampling
