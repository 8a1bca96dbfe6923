import AccessSampling.Options

/-!
# Valid options

The checks run in one order and the first that fails is the answer, so options with two faults are
refused for the earlier one. `Options.fault?` is the check and `Options.Valid` says what it lets
pass, and `fault?_eq_none_iff` states that they agree.
-/

namespace AccessSampling

/-- Why options are refused. -/
inductive OptionFault where
  | heapCapacityZero
  | flucMaxZero
  | hitMaxZero
  | overheadMaxZero
  | noCompositeRange
  | periodMinZero
  | periodRangeEmpty
  | emaDenominatorZero
  | emaAboveOne
  | budgetZero
  | coarseTablesEmpty
  | coarseTablesDiffer
  | coarsePeriodZero
  | highWatermarkAbove100
  | watermarksCrossed
  | initialPeriodZero
  deriving DecidableEq, Repr

def OptionFault.message : OptionFault → String
  | heapCapacityZero => "heap capacity must be positive"
  | flucMaxZero => "`score.fluc_max` must be positive"
  | hitMaxZero => "`score.hit_max` must be positive"
  | overheadMaxZero => "`score.overhead_max` must be positive"
  | noCompositeRange => "score weights leave no composite range"
  | periodMinZero => "`period.min` must be positive"
  | periodRangeEmpty => "`period.min` must be below `period.max`"
  | emaDenominatorZero => "`period.ema` has a zero denominator"
  | emaAboveOne => "`period.ema` must not exceed 1"
  | budgetZero => "`period.budget` must be positive"
  | coarseTablesEmpty => "coarse period tables are empty"
  | coarseTablesDiffer => "coarse period tables differ in length"
  | coarsePeriodZero => "coarse periods must be positive"
  | highWatermarkAbove100 => "`drain.high_watermark` is a percentage"
  | watermarksCrossed => "`drain.low_watermark` exceeds `drain.high_watermark`"
  | initialPeriodZero => "initial periods must be positive"

namespace Options

/-- Every check with the fault it finds, in the order in which they run. -/
def checks (o : Options) : List (Bool × OptionFault) :=
  [ (o.heapCapacity == 0, .heapCapacityZero),
    (o.score.flucMax == 0, .flucMaxZero),
    (o.score.hitMax == 0, .hitMaxZero),
    (o.score.overheadMax == 0, .overheadMaxZero),
    (decide (o.score.weights.highest ≤ o.score.weights.lowest), .noCompositeRange),
    (o.period.min == 0, .periodMinZero),
    (decide (o.period.max ≤ o.period.min), .periodRangeEmpty),
    (o.period.ema.den == 0, .emaDenominatorZero),
    (decide (o.period.ema.den < o.period.ema.num), .emaAboveOne),
    (o.period.budget == 0, .budgetZero),
    (o.quota.basePeriods.isEmpty, .coarseTablesEmpty),
    (o.quota.basePeriods.length != o.quota.instrPeriods.length, .coarseTablesDiffer),
    ((o.quota.basePeriods ++ o.quota.instrPeriods).any (· == 0), .coarsePeriodZero),
    (decide (100 < o.drain.highWatermark), .highWatermarkAbove100),
    (decide (o.drain.highWatermark < o.drain.lowWatermark), .watermarksCrossed),
    (o.classes.toList.any (·.initialPeriod == 0), .initialPeriodZero) ]

/-- The first fault of the options, if they have one. -/
def fault? (o : Options) : Option OptionFault :=
  (o.checks.find? (·.1)).map (·.2)

/-- What the options must satisfy. -/
structure Valid (o : Options) : Prop where
  heapCapacity_pos : 0 < o.heapCapacity
  flucMax_pos : 0 < o.score.flucMax
  hitMax_pos : 0 < o.score.hitMax
  overheadMax_pos : 0 < o.score.overheadMax
  lowest_lt_highest : o.score.weights.lowest < o.score.weights.highest
  min_pos : 0 < o.period.min
  min_lt_max : o.period.min < o.period.max
  den_pos : 0 < o.period.ema.den
  num_le_den : o.period.ema.num ≤ o.period.ema.den
  budget_pos : 0 < o.period.budget
  basePeriods_ne_nil : o.quota.basePeriods ≠ []
  length_eq : o.quota.basePeriods.length = o.quota.instrPeriods.length
  basePeriods_pos : ∀ p ∈ o.quota.basePeriods, 0 < p
  instrPeriods_pos : ∀ p ∈ o.quota.instrPeriods, 0 < p
  highWatermark_le : o.drain.highWatermark ≤ 100
  lowWatermark_le : o.drain.lowWatermark ≤ o.drain.highWatermark
  initialPeriod_pos : ∀ c, 0 < (o.classes.get c).initialPeriod

theorem fault?_eq_none_iff_checks {o : Options} :
    o.fault? = none ↔ ∀ check ∈ o.checks, check.1 = false := by
  simp [fault?]

/-- The check lets pass exactly the valid options. -/
theorem fault?_eq_none_iff {o : Options} : o.fault? = none ↔ o.Valid := by
  rw [fault?_eq_none_iff_checks]
  simp only [checks, List.mem_cons, List.not_mem_nil, or_false, forall_eq_or_imp, forall_eq,
    beq_eq_false_iff_ne, decide_eq_false_iff_not, List.isEmpty_eq_false_iff, bne_eq_false_iff_eq,
    List.any_eq_false, List.mem_append, beq_iff_eq, PerClass.toList, List.mem_map,
    EventClass.mem_all, true_and, forall_exists_index, forall_apply_eq_imp_iff]
  constructor
  · rintro ⟨h1, h2, h3, h4, h5, h6, h7, h8, h9, h10, h11, h12, h13, h14, h15, h16⟩
    exact
      { heapCapacity_pos := by omega
        flucMax_pos := by omega
        hitMax_pos := by omega
        overheadMax_pos := by omega
        lowest_lt_highest := by omega
        min_pos := by omega
        min_lt_max := by omega
        den_pos := by omega
        num_le_den := by omega
        budget_pos := by omega
        basePeriods_ne_nil := h11
        length_eq := h12
        basePeriods_pos := fun p hp => Nat.pos_of_ne_zero (h13 p (.inl hp))
        instrPeriods_pos := fun p hp => Nat.pos_of_ne_zero (h13 p (.inr hp))
        highWatermark_le := by omega
        lowWatermark_le := by omega
        initialPeriod_pos := fun c => Nat.pos_of_ne_zero (h16 c) }
  · intro h
    exact ⟨Nat.ne_of_gt h.heapCapacity_pos, Nat.ne_of_gt h.flucMax_pos, Nat.ne_of_gt h.hitMax_pos,
      Nat.ne_of_gt h.overheadMax_pos, Int.not_le.2 h.lowest_lt_highest, Nat.ne_of_gt h.min_pos,
      Nat.not_le.2 h.min_lt_max, Nat.ne_of_gt h.den_pos, Nat.not_lt.2 h.num_le_den,
      Nat.ne_of_gt h.budget_pos, h.basePeriods_ne_nil, h.length_eq,
      fun p hp => hp.elim (fun hp => Nat.ne_of_gt (h.basePeriods_pos p hp))
        (fun hp => Nat.ne_of_gt (h.instrPeriods_pos p hp)),
      Nat.not_lt.2 h.highWatermark_le, Nat.not_lt.2 h.lowWatermark_le,
      fun c => Nat.ne_of_gt (h.initialPeriod_pos c)⟩

instance (o : Options) : Decidable o.Valid :=
  decidable_of_iff _ fault?_eq_none_iff

end Options

end AccessSampling
