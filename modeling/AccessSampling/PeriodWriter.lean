import AccessSampling.EventSource

/-!
# Period writes

Both period loops reach the event source through one writer, which remembers the period of each
class that was last written or read with success. A refused call leaves that memory as it was, so it
never runs ahead of the source.
-/

namespace AccessSampling

/-- An event source and the periods that are known of it. -/
structure PeriodWriter where
  source : EventSource
  known : PerClass Nat

namespace PeriodWriter

def set (w : PeriodWriter) (c : EventClass) (period : Nat) : Except Refusal Unit × PeriodWriter :=
  match w.source.setPeriod c period with
  | (.error r, source) => (.error r, { w with source })
  | (.ok (), source) => (.ok (), { source, known := w.known.set c period })

def get (w : PeriodWriter) (c : EventClass) : Except Refusal Nat × PeriodWriter :=
  match w.source.period c with
  | (.error r, source) => (.error r, { w with source })
  | (.ok p, source) => (.ok p, { source, known := w.known.set c p })

end PeriodWriter

end AccessSampling
