import AccessSampling.Proofs.Checked.Operations
import AccessSampling.Tally

/-!
# Scores with checked operations

An average is taken only of entries that are there, a share only of a ceiling that is not reached,
which is then positive, and the place of a composite in its range only if the composite lies
strictly inside, so that the range is not empty. These guards stand in the scores themselves, hence
every score has a value, even with options that the check refuses.
-/

namespace AccessSampling.Checked

variable {ι : Type}

def ratioScore (value ceiling : Nat) : Except Fault Nat :=
  if ceiling ≤ value then return fullScore else div (value * fullScore) ceiling

def vibrateScore (entries : List (HeapEntry ι)) (stats : ι → IntervalStats) (flucMax : Nat) :
    Except Fault Nat :=
  let flucs := entries.filterMap fun e => (stats e.item).fluctuation?.map UInt64.toNat
  if flucs = [] then return 0
  else do
    let average ← div (flucs.foldr (· + ·) 0) flucs.length
    ratioScore average flucMax

def hotnessScore (entries : List (HeapEntry ι)) (capacity hitMax : Nat) : Except Fault Nat :=
  if entries = [] then return 0
  else do
    let average ← div ((entries.map fun e => e.hits.toNat).foldr (· + ·) 0) entries.length
    let base ← ratioScore average hitMax
    let bonus ← if capacity = 0 then pure 0 else div (entries.length * 100) capacity
    return min fullScore (base + bonus)

def weigh (w : Weights) (vibrate hotness overhead : Nat) : Except Fault Int :=
  quot (w.vibrate * vibrate + w.hotness * hotness + w.overhead * overhead) fullScore

def normalize (w : Weights) (raw : Int) : Except Fault Nat :=
  if raw ≤ w.lowest then return 0
  else if w.highest ≤ raw then return fullScore
  else do
    let place ← quot ((raw - w.lowest) * fullScore) (w.highest - w.lowest)
    return place.toNat

/-- The scores of a class, from its heap and its counter. -/
def metrics [DecidableEq ι] (t : Tally ι) (o : ScoreOptions) (c : EventClass) :
    Except Fault Metrics := do
  let h ← entry t.heaps c
  let samples ← entry t.samples c
  let vibrate ← vibrateScore h.entries.toList t.stats.get o.flucMax
  let hotness ← hotnessScore h.entries.toList h.capacity o.hitMax
  let overhead ← ratioScore samples o.overheadMax
  let raw ← weigh o.weights vibrate hotness overhead
  let composite ← normalize o.weights raw
  return { vibrate, hotness, overhead, raw := wrapSigned 32 raw, composite }

theorem ratioScore_eq (value ceiling : Nat) :
    ratioScore value ceiling = .ok (AccessSampling.ratioScore value ceiling) := by
  unfold ratioScore AccessSampling.ratioScore
  split
  · rfl
  · rename_i h
    exact div_of_ne_zero (by omega) _

theorem vibrateScore_eq (entries : List (HeapEntry ι)) (stats : ι → IntervalStats)
    (flucMax : Nat) :
    vibrateScore entries stats flucMax =
      .ok (AccessSampling.vibrateScore entries stats flucMax) := by
  simp only [vibrateScore, AccessSampling.vibrateScore]
  split
  · rfl
  · rename_i h
    rw [div_of_ne_zero (by simpa using h), ok_bind, ratioScore_eq]

theorem hotnessScore_eq (entries : List (HeapEntry ι)) (capacity hitMax : Nat) :
    hotnessScore entries capacity hitMax =
      .ok (AccessSampling.hotnessScore entries capacity hitMax) := by
  unfold hotnessScore AccessSampling.hotnessScore
  split
  · rfl
  · rename_i h
    rw [div_of_ne_zero (by simpa using h), ok_bind, ratioScore_eq, ok_bind]
    by_cases hcapacity : capacity = 0
    · rw [if_pos hcapacity, hcapacity, Nat.div_zero]
      rfl
    · rw [if_neg hcapacity, div_of_ne_zero hcapacity]
      rfl

theorem weigh_eq (w : Weights) (vibrate hotness overhead : Nat) :
    weigh w vibrate hotness overhead = .ok (w.weigh vibrate hotness overhead) :=
  quot_of_ne_zero (by decide) _

theorem normalize_eq (w : Weights) (raw : Int) : normalize w raw = .ok (w.normalize raw) := by
  unfold normalize Weights.normalize
  split
  · rfl
  · split
    · rfl
    · rename_i hlowest hhighest
      have hplace : 0 ≤ (raw - w.lowest) * fullScore :=
        Int.mul_nonneg (by omega) (Int.natCast_nonneg _)
      rw [quot_of_ne_zero (by omega), ok_bind, Int.tdiv_eq_ediv_of_nonneg hplace]
      rfl

theorem metrics_eq [DecidableEq ι] (t : Tally ι) (o : ScoreOptions) (c : EventClass) :
    metrics t o c = .ok (t.metrics o c) := by
  simp only [metrics, entry_eq, vibrateScore_eq, hotnessScore_eq, ratioScore_eq, weigh_eq,
    normalize_eq, ok_bind]
  rfl

end AccessSampling.Checked
