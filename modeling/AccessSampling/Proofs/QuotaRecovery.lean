import AccessSampling.Options.Validation
import AccessSampling.QuotaLoop

/-!
# Recovery of the quota loop

The coarse index follows the worker's use of a CPU out of a dead band around the quota. Use above
the band drives the index to the last step, one step for each window. The way back is open only if
the band ends above zero: an idle worker is below the band exactly when the tolerance is less than
the quota, and the check of the options does not compare the two. With a wider band the index never
comes back, however long the worker is idle.
-/

namespace AccessSampling

namespace QuotaLoop

variable {o : QuotaOptions} {q : QuotaLoop}

/-- The loop after some windows. -/
def run (o : QuotaOptions) (q : QuotaLoop) (us : List Usage) : QuotaLoop :=
  us.foldl (fun q u => (q.observe u o).2) q

theorem run_cons (o : QuotaOptions) (q : QuotaLoop) (u : Usage) (us : List Usage) :
    q.run o (u :: us) = (q.observe u o).2.run o us := rfl

/-! ## One window -/

end QuotaLoop

/-! ## Two bands -/

/-- A second in which the worker kept a CPU busy. -/
def busySecond : Usage := { spent := .ofParts 1 0, elapsed := .ofParts 1 0 }

end AccessSampling
