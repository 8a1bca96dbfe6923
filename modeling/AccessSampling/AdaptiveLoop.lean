import AccessSampling.Budget
import AccessSampling.Period
import AccessSampling.PeriodWriter
import AccessSampling.Tally

/-!
# The adaptive loop

A cycle scores every class, reads the periods of the adaptive ones and proposes a period for each
that could be read: its score's target, mixed with the period in effect. The proposals then have to
fit the sample budget and are written. A class whose read or write is refused is left out or left
alone, and the others go on.
-/

namespace AccessSampling

/-- What the adaptive loop keeps from cycle to cycle. -/
structure AdaptiveLoop where
  options : PeriodOptions
  /-- The classes that the loop may retune. -/
  adaptive : List EventClass
  /-- The sample counters as of the previous cycle. -/
  lastSamples : PerClass Nat := .replicate 0

structure Cycle where
  /-- Classes whose period was written. -/
  adapted : Nat
  /-- Reads and writes that were refused. -/
  failed : Nat
  budget : BudgetOutcome
  deriving DecidableEq, Repr

/-- What the first half of a cycle found. -/
structure Survey where
  writer : PeriodWriter
  metrics : PerClass Metrics := .replicate {}
  /-- The proposals, in the order of the classes. -/
  projections : List Projection := []
  failed : Nat := 0

/-- What the second half of a cycle did. -/
structure Retuning where
  writer : PeriodWriter
  metrics : PerClass Metrics
  adapted : Nat := 0
  failed : Nat := 0

namespace AdaptiveLoop

/-- The loop over some classes, no more than there are. -/
def new? (options : PeriodOptions) (adaptive : List EventClass) : Except Fault AdaptiveLoop :=
  if EventClass.all.length < adaptive.length then .error .tooManyClasses
  else .ok { options, adaptive }

section Survey

variable {ι : Type} [DecidableEq ι]

/-- Scores a class and, if it is adaptive, reads its period and proposes the next one. The events of
the last interval are estimated with the period in effect. -/
def surveyClass (l : AdaptiveLoop) (t : Tally ι) (o : ScoreOptions) (s : Survey) (c : EventClass) :
    Survey :=
  let m := { t.metrics o c with currentPeriod := s.writer.known.get c }
  if c ∈ l.adaptive then
    let m := { m with targetPeriod := l.options.target m.composite }
    match s.writer.get c with
    | (.error _, writer) =>
      { s with writer, metrics := s.metrics.set c m, failed := s.failed + 1 }
    | (.ok current, writer) =>
      let smoothed := l.options.ema.smooth current m.targetPeriod
      let recent := t.samples.get c - l.lastSamples.get c
      { s with
        writer
        metrics := s.metrics.set c { m with currentPeriod := current, smoothedPeriod := smoothed }
        projections := s.projections ++
          [{ cls := c, events := recent * current, period := smoothed }] }
  else { s with metrics := s.metrics.set c m }

/-- Scores every class and collects the proposals. -/
def survey (l : AdaptiveLoop) (w : PeriodWriter) (t : Tally ι) (o : ScoreOptions) : Survey :=
  EventClass.all.foldl (l.surveyClass t o) { writer := w }

end Survey

def retuneClass (r : Retuning) (p : Projection) : Retuning :=
  match r.writer.set p.cls p.period with
  | (.error _, writer) => { r with writer, failed := r.failed + 1 }
  | (.ok (), writer) =>
    { r with
      writer
      metrics := r.metrics.modify p.cls fun m => { m with currentPeriod := p.period }
      adapted := r.adapted + 1 }

def retune (w : PeriodWriter) (metrics : PerClass Metrics) (ps : List Projection) : Retuning :=
  ps.foldl retuneClass { writer := w, metrics }

structure Outcome where
  cycle : Cycle
  metrics : PerClass Metrics
  loop : AdaptiveLoop
  writer : PeriodWriter

section Adapt

variable {ι : Type} [DecidableEq ι]

def adapt (l : AdaptiveLoop) (w : PeriodWriter) (t : Tally ι) (o : ScoreOptions) : Outcome :=
  let s := l.survey w t o
  let (budget, ps) := enforceBudget l.options.budget l.options.max s.projections
  let r := retune s.writer s.metrics ps
  { cycle := { adapted := r.adapted, failed := s.failed + r.failed, budget }
    metrics := r.metrics
    loop := { l with lastSamples := t.samples }
    writer := r.writer }

/-- Runs a cycle, with a zero denominator of the smoothing refused as soon as a period is to be
smoothed with it. -/
def adapt? (l : AdaptiveLoop) (w : PeriodWriter) (t : Tally ι) (o : ScoreOptions) :
    Except Fault Outcome :=
  if l.options.ema.den = 0 ∧ (l.survey w t o).projections ≠ [] then .error .divisionByZero
  else .ok (l.adapt w t o)

end Adapt

end AdaptiveLoop

end AccessSampling
