import AccessSampling.PeriodWriter

/-!
# The quota loop

The drain worker has a quota of CPU time. After each window its use is compared with the quota:
above the dead band the index into the coarse period tables moves one step up, below it one step
down. The classes of the base and of the instruction tier then get the period at that index.
-/

namespace AccessSampling

/-- The use of a CPU in permil, by the time spent in some elapsed time: nanoseconds over
microseconds, kept to 64 bits. An elapsed time below a microsecond counts as one. -/
def permil (spent elapsed : Duration) : Nat :=
  spent.nanoseconds / max elapsed.microseconds 1 % UInt64.size

/-! ## Windows -/

/-- The start of a window: the clock and the CPU time spent so far. -/
structure CpuWindow where
  start : Duration
  cpuTime : Duration
  deriving DecidableEq, Repr

/-- The time between two readings, zero if the later one is behind. -/
def Duration.since (later earlier : Duration) : Duration :=
  ⟨later.nanoseconds - earlier.nanoseconds⟩

/-- What was measured over a window. -/
structure Usage where
  spent : Duration
  elapsed : Duration
  deriving DecidableEq, Repr

def Usage.permil (u : Usage) : Nat := AccessSampling.permil u.spent u.elapsed

/-- Closes a window and opens the next one. -/
def CpuWindow.roll (w : CpuWindow) (now cpuTime : Duration) : Usage × CpuWindow :=
  ({ spent := cpuTime.since w.cpuTime, elapsed := now.since w.start }, { start := now, cpuTime })

/-! ## Steps -/

/-- What a window did to the coarse index. -/
inductive QuotaStep where
  /-- Coarser periods, with the new index. -/
  | up (index : Nat)
  /-- Finer periods, with the new index. -/
  | down (index : Nat)
  | hold
  deriving DecidableEq, Repr

/-- The state of the quota loop. -/
structure QuotaLoop where
  index : Nat := 0
  /-- The estimate of the worker's use of a CPU, in permil. -/
  usage : Nat := 0
  deriving DecidableEq, Repr

namespace QuotaLoop

/-- The estimate after a window. After an estimate of zero the new value counts for eight tenths, so
one busy window of an idle worker weighs less; otherwise it is taken as it is. The product is exact:
it passes 64 bits only from a use of `2 ^ 61` permil on, which would take more than seventy years of
CPU time within a microsecond. -/
def estimate (q : QuotaLoop) (current : Nat) : Nat :=
  if q.usage = 0 then current * 8 / 10 else current

def observe (q : QuotaLoop) (u : Usage) (o : QuotaOptions) : QuotaStep × QuotaLoop :=
  let usage := q.estimate u.permil
  if o.cpuPermil + o.tolerancePermil < usage ∧ q.index < o.steps - 1 then
    (.up (q.index + 1), { index := q.index + 1, usage })
  else if usage + o.tolerancePermil < o.cpuPermil ∧ 0 < q.index then
    (.down (q.index - 1), { index := q.index - 1, usage })
  else (.hold, { q with usage })

def applyClass (q : QuotaLoop) (o : QuotaOptions) (s : Nat × PeriodWriter) (c : EventClass) :
    Nat × PeriodWriter :=
  match o.period? c.tier q.index with
  | none => s
  | some p =>
    match s.2.set c p with
    | (.error _, writer) => (s.1 + 1, writer)
    | (.ok (), writer) => (s.1, writer)

def apply (q : QuotaLoop) (w : PeriodWriter) (cs : List EventClass) (o : QuotaOptions) :
    Nat × PeriodWriter :=
  cs.foldl (q.applyClass o) (0, w)

end QuotaLoop

end AccessSampling
