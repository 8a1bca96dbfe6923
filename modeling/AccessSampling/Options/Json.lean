import AccessSampling.Json.Fields
import AccessSampling.Json.Reader
import AccessSampling.Options

/-!
# The written form of options

Options are written as nested objects with a member for every field. Reading admits no missing
field and no value outside its word; a duration's nanoseconds may pass a second, as long as the
seconds still fit. The lemmas `ofJson?_eq_some_iff` say what each reader takes from which field.
-/

namespace AccessSampling

/-! ## Durations -/

def Duration.toJson (d : Duration) : Json :=
  .ofFields [("secs", .ofNat d.seconds), ("nanos", .ofNat d.subsecNanos)]

def Duration.ofJson? (j : Json) : Option Duration := do
  let [secs, nanos] ← j.fields? ["secs", "nanos"] true | none
  let d := Duration.ofParts (← secs.word64?) (← nanos.word32?)
  guard (d.seconds < UInt64.size)
  return d

theorem Duration.ofJson?_eq_some_iff {j : Json} {d : Duration} :
    ofJson? j = some d ↔ ∃ secs nanos s n, j.fields? ["secs", "nanos"] true = some [secs, nanos] ∧
      secs.word64? = some s ∧ nanos.word32? = some n ∧ .ofParts s n = d ∧
      d.seconds < UInt64.size := by
  constructor
  · intro h
    obtain ⟨js, hfields, h⟩ := Option.bind_eq_some_iff.1 h
    split at h
    · obtain ⟨s, hsecs, h⟩ := Option.bind_eq_some_iff.1 h
      obtain ⟨n, hnanos, h⟩ := Option.bind_eq_some_iff.1 h
      obtain ⟨_, hguard, h⟩ := Option.bind_eq_some_iff.1 h
      cases h
      refine ⟨_, _, _, _, hfields, hsecs, hnanos, rfl, Decidable.byContradiction fun hlt => ?_⟩
      cases hguard.symm.trans (if_neg hlt)
    · cases h
  · rintro ⟨secs, nanos, s, n, hfields, hsecs, hnanos, rfl, hlt⟩
    refine Option.bind_eq_some_iff.2 ⟨_, hfields, ?_⟩
    refine Option.bind_eq_some_iff.2 ⟨_, hsecs, ?_⟩
    refine Option.bind_eq_some_iff.2 ⟨_, hnanos, ?_⟩
    exact Option.bind_eq_some_iff.2 ⟨(), if_pos hlt, rfl⟩

/-! ## Scores -/

def Weights.toJson (w : Weights) : Json :=
  .ofFields [("vibrate", .integer w.vibrate), ("hotness", .integer w.hotness),
    ("overhead", .integer w.overhead)]

def Weights.ofJson? (j : Json) : Option Weights := do
  let [vibrate, hotness, overhead] ← j.fields? ["vibrate", "hotness", "overhead"] | none
  return {
    vibrate := ← vibrate.signed32?
    hotness := ← hotness.signed32?
    overhead := ← overhead.signed32? }

theorem Weights.ofJson?_eq_some_iff {j : Json} {w : Weights} :
    ofJson? j = some w ↔ ∃ vibrate hotness overhead,
      j.fields? ["vibrate", "hotness", "overhead"] = some [vibrate, hotness, overhead] ∧
      vibrate.signed32? = some w.vibrate ∧ hotness.signed32? = some w.hotness ∧
      overhead.signed32? = some w.overhead := by
  constructor
  · intro h
    obtain ⟨js, hfields, h⟩ := Option.bind_eq_some_iff.1 h
    split at h
    · simp only [Option.bind_eq_bind, Option.bind_eq_some_iff, Option.pure_def,
        Option.some.injEq] at h
      obtain ⟨vibrate, hvibrate, hotness, hhotness, overhead, hoverhead, rfl⟩ := h
      exact ⟨_, _, _, hfields, hvibrate, hhotness, hoverhead⟩
    · cases h
  · rintro ⟨vibrate, hotness, overhead, hfields, hvibrate, hhotness, hoverhead⟩
    simp [ofJson?, hfields, hvibrate, hhotness, hoverhead]

def ScoreOptions.toJson (o : ScoreOptions) : Json :=
  .ofFields [("fluc_max", .ofNat o.flucMax), ("hit_max", .ofNat o.hitMax),
    ("overhead_max", .ofNat o.overheadMax), ("weights", o.weights.toJson)]

def ScoreOptions.ofJson? (j : Json) : Option ScoreOptions := do
  let [flucMax, hitMax, overheadMax, weights] ←
    j.fields? ["fluc_max", "hit_max", "overhead_max", "weights"] | none
  return {
    flucMax := ← flucMax.word64?
    hitMax := ← hitMax.word64?
    overheadMax := ← overheadMax.word64?
    weights := ← Weights.ofJson? weights }

theorem ScoreOptions.ofJson?_eq_some_iff {j : Json} {o : ScoreOptions} :
    ofJson? j = some o ↔ ∃ fluc hit overhead weights,
      j.fields? ["fluc_max", "hit_max", "overhead_max", "weights"] =
        some [fluc, hit, overhead, weights] ∧
      fluc.word64? = some o.flucMax ∧ hit.word64? = some o.hitMax ∧
      overhead.word64? = some o.overheadMax ∧ Weights.ofJson? weights = some o.weights := by
  constructor
  · intro h
    obtain ⟨js, hfields, h⟩ := Option.bind_eq_some_iff.1 h
    split at h
    · simp only [Option.bind_eq_bind, Option.bind_eq_some_iff, Option.pure_def,
        Option.some.injEq] at h
      obtain ⟨fluc, hfluc, hit, hhit, overhead, hoverhead, weights, hweights, rfl⟩ := h
      exact ⟨_, _, _, _, hfields, hfluc, hhit, hoverhead, hweights⟩
    · cases h
  · rintro ⟨fluc, hit, overhead, weights, hfields, hfluc, hhit, hoverhead, hweights⟩
    simp [ofJson?, hfields, hfluc, hhit, hoverhead, hweights]

/-! ## Periods -/

def Ratio.toJson (r : Ratio) : Json :=
  .ofFields [("num", .ofNat r.num), ("den", .ofNat r.den)]

def Ratio.ofJson? (j : Json) : Option Ratio := do
  let [num, den] ← j.fields? ["num", "den"] | none
  return { num := ← num.word64?, den := ← den.word64? }

theorem Ratio.ofJson?_eq_some_iff {j : Json} {r : Ratio} :
    ofJson? j = some r ↔ ∃ num den,
      j.fields? ["num", "den"] = some [num, den] ∧
      num.word64? = some r.num ∧ den.word64? = some r.den := by
  constructor
  · intro h
    obtain ⟨js, hfields, h⟩ := Option.bind_eq_some_iff.1 h
    split at h
    · simp only [Option.bind_eq_bind, Option.bind_eq_some_iff, Option.pure_def,
        Option.some.injEq] at h
      obtain ⟨num, hnum, den, hden, rfl⟩ := h
      exact ⟨_, _, hfields, hnum, hden⟩
    · cases h
  · rintro ⟨num, den, hfields, hnum, hden⟩
    simp [ofJson?, hfields, hnum, hden]

def PeriodOptions.toJson (o : PeriodOptions) : Json :=
  .ofFields [("min", .ofNat o.min), ("max", .ofNat o.max), ("ema", o.ema.toJson),
    ("budget", .ofNat o.budget), ("interval", o.interval.toJson)]

def PeriodOptions.ofJson? (j : Json) : Option PeriodOptions := do
  let [min, max, ema, budget, interval] ←
    j.fields? ["min", "max", "ema", "budget", "interval"] | none
  return {
    min := ← min.word64?
    max := ← max.word64?
    ema := ← Ratio.ofJson? ema
    budget := ← budget.word64?
    interval := ← Duration.ofJson? interval }

theorem PeriodOptions.ofJson?_eq_some_iff {j : Json} {o : PeriodOptions} :
    ofJson? j = some o ↔ ∃ min max ema budget interval,
      j.fields? ["min", "max", "ema", "budget", "interval"] =
        some [min, max, ema, budget, interval] ∧
      min.word64? = some o.min ∧ max.word64? = some o.max ∧ Ratio.ofJson? ema = some o.ema ∧
      budget.word64? = some o.budget ∧ Duration.ofJson? interval = some o.interval := by
  constructor
  · intro h
    obtain ⟨js, hfields, h⟩ := Option.bind_eq_some_iff.1 h
    split at h
    · simp only [Option.bind_eq_bind, Option.bind_eq_some_iff, Option.pure_def,
        Option.some.injEq] at h
      obtain ⟨min, hmin, max, hmax, ema, hema, budget, hbudget, interval, hinterval, rfl⟩ := h
      exact ⟨_, _, _, _, _, hfields, hmin, hmax, hema, hbudget, hinterval⟩
    · cases h
  · rintro ⟨min, max, ema, budget, interval, hfields, hmin, hmax, hema, hbudget, hinterval⟩
    simp [ofJson?, hfields, hmin, hmax, hema, hbudget, hinterval]

def QuotaOptions.toJson (o : QuotaOptions) : Json :=
  .ofFields [("cpu_permil", .ofNat o.cpuPermil), ("tolerance_permil", .ofNat o.tolerancePermil),
    ("window", o.window.toJson), ("base_periods", .array (o.basePeriods.map .ofNat)),
    ("instr_periods", .array (o.instrPeriods.map .ofNat))]

def QuotaOptions.ofJson? (j : Json) : Option QuotaOptions := do
  let [cpuPermil, tolerancePermil, window, basePeriods, instrPeriods] ←
    j.fields? ["cpu_permil", "tolerance_permil", "window", "base_periods", "instr_periods"] | none
  return {
    cpuPermil := ← cpuPermil.word64?
    tolerancePermil := ← tolerancePermil.word64?
    window := ← Duration.ofJson? window
    basePeriods := ← basePeriods.list? Json.word64?
    instrPeriods := ← instrPeriods.list? Json.word64? }

theorem QuotaOptions.ofJson?_eq_some_iff {j : Json} {o : QuotaOptions} :
    ofJson? j = some o ↔ ∃ cpu tolerance window base instr,
      j.fields? ["cpu_permil", "tolerance_permil", "window", "base_periods", "instr_periods"] =
        some [cpu, tolerance, window, base, instr] ∧
      cpu.word64? = some o.cpuPermil ∧ tolerance.word64? = some o.tolerancePermil ∧
      Duration.ofJson? window = some o.window ∧ base.list? Json.word64? = some o.basePeriods ∧
      instr.list? Json.word64? = some o.instrPeriods := by
  constructor
  · intro h
    obtain ⟨js, hfields, h⟩ := Option.bind_eq_some_iff.1 h
    split at h
    · simp only [Option.bind_eq_bind, Option.bind_eq_some_iff, Option.pure_def,
        Option.some.injEq] at h
      obtain ⟨cpu, hcpu, tolerance, htolerance, window, hwindow, base, hbase, instr, hinstr,
        rfl⟩ := h
      exact ⟨_, _, _, _, _, hfields, hcpu, htolerance, hwindow, hbase, hinstr⟩
    · cases h
  · rintro ⟨cpu, tolerance, window, base, instr, hfields, hcpu, htolerance, hwindow, hbase, hinstr⟩
    simp [ofJson?, hfields, hcpu, htolerance, hwindow, hbase, hinstr]

/-! ## Draining -/

def DrainOptions.toJson (o : DrainOptions) : Json :=
  .ofFields [("high_watermark", .ofNat o.highWatermark), ("low_watermark", .ofNat o.lowWatermark),
    ("sleep", o.sleep.toJson), ("report_interval", o.reportInterval.toJson),
    ("milestone", .ofNat o.milestone)]

def DrainOptions.ofJson? (j : Json) : Option DrainOptions := do
  let [highWatermark, lowWatermark, sleep, reportInterval, milestone] ←
    j.fields? ["high_watermark", "low_watermark", "sleep", "report_interval", "milestone"] | none
  return {
    highWatermark := ← highWatermark.word8?
    lowWatermark := ← lowWatermark.word8?
    sleep := ← Duration.ofJson? sleep
    reportInterval := ← Duration.ofJson? reportInterval
    milestone := ← milestone.word64? }

theorem DrainOptions.ofJson?_eq_some_iff {j : Json} {o : DrainOptions} :
    ofJson? j = some o ↔ ∃ high low sleep report milestone,
      j.fields? ["high_watermark", "low_watermark", "sleep", "report_interval", "milestone"] =
        some [high, low, sleep, report, milestone] ∧
      high.word8? = some o.highWatermark ∧ low.word8? = some o.lowWatermark ∧
      Duration.ofJson? sleep = some o.sleep ∧ Duration.ofJson? report = some o.reportInterval ∧
      milestone.word64? = some o.milestone := by
  constructor
  · intro h
    obtain ⟨js, hfields, h⟩ := Option.bind_eq_some_iff.1 h
    split at h
    · simp only [Option.bind_eq_bind, Option.bind_eq_some_iff, Option.pure_def,
        Option.some.injEq] at h
      obtain ⟨high, hhigh, low, hlow, sleep, hsleep, report, hreport, milestone, hmilestone,
        rfl⟩ := h
      exact ⟨_, _, _, _, _, hfields, hhigh, hlow, hsleep, hreport, hmilestone⟩
    · cases h
  · rintro ⟨high, low, sleep, report, milestone, hfields, hhigh, hlow, hsleep, hreport, hmilestone⟩
    simp [ofJson?, hfields, hhigh, hlow, hsleep, hreport, hmilestone]

/-! ## Classes -/

def ClassOptions.toJson (o : ClassOptions) : Json :=
  .ofFields [("initial_period", .ofNat o.initialPeriod), ("fixed", .bool o.fixed)]

def ClassOptions.ofJson? (j : Json) : Option ClassOptions := do
  let [initialPeriod, fixed] ← j.fields? ["initial_period", "fixed"] | none
  return { initialPeriod := ← initialPeriod.word64?, fixed := ← fixed.bool? }

theorem ClassOptions.ofJson?_eq_some_iff {j : Json} {o : ClassOptions} :
    ofJson? j = some o ↔ ∃ period fixed,
      j.fields? ["initial_period", "fixed"] = some [period, fixed] ∧
      period.word64? = some o.initialPeriod ∧ fixed.bool? = some o.fixed := by
  constructor
  · intro h
    obtain ⟨js, hfields, h⟩ := Option.bind_eq_some_iff.1 h
    split at h
    · simp only [Option.bind_eq_bind, Option.bind_eq_some_iff, Option.pure_def,
        Option.some.injEq] at h
      obtain ⟨period, hperiod, fixed, hfixed, rfl⟩ := h
      exact ⟨_, _, hfields, hperiod, hfixed⟩
    · cases h
  · rintro ⟨period, fixed, hfields, hperiod, hfixed⟩
    simp [ofJson?, hfields, hperiod, hfixed]

namespace Options

def toJson (o : Options) : Json :=
  .ofFields [("heap_capacity", .ofNat o.heapCapacity), ("score", o.score.toJson),
    ("period", o.period.toJson), ("quota", o.quota.toJson), ("drain", o.drain.toJson),
    ("classes", .array (o.classes.toList.map ClassOptions.toJson))]

def ofJson? (j : Json) : Option Options := do
  let [heapCapacity, score, period, quota, drain, classes] ←
    j.fields? ["heap_capacity", "score", "period", "quota", "drain", "classes"] | none
  return {
    heapCapacity := ← heapCapacity.word32?
    score := ← ScoreOptions.ofJson? score
    period := ← PeriodOptions.ofJson? period
    quota := ← QuotaOptions.ofJson? quota
    drain := ← DrainOptions.ofJson? drain
    classes := ← PerClass.ofList? (← classes.list? ClassOptions.ofJson?) }

theorem ofJson?_eq_some_iff {j : Json} {o : Options} :
    ofJson? j = some o ↔ ∃ capacity score period quota drain classes,
      j.fields? ["heap_capacity", "score", "period", "quota", "drain", "classes"] =
        some [capacity, score, period, quota, drain, classes] ∧
      capacity.word32? = some o.heapCapacity ∧ ScoreOptions.ofJson? score = some o.score ∧
      PeriodOptions.ofJson? period = some o.period ∧ QuotaOptions.ofJson? quota = some o.quota ∧
      DrainOptions.ofJson? drain = some o.drain ∧
      classes.list? ClassOptions.ofJson? = some o.classes.toList := by
  constructor
  · intro h
    obtain ⟨js, hfields, h⟩ := Option.bind_eq_some_iff.1 h
    split at h
    · simp only [Option.bind_eq_bind, Option.bind_eq_some_iff, Option.pure_def,
        Option.some.injEq] at h
      obtain ⟨capacity, hcapacity, score, hscore, period, hperiod, quota, hquota, drain, hdrain,
        xs, hxs, classes, hclasses, rfl⟩ := h
      rw [PerClass.eq_toList_of_ofList? hclasses] at hxs
      exact ⟨_, _, _, _, _, _, hfields, hcapacity, hscore, hperiod, hquota, hdrain, hxs⟩
    · cases h
  · rintro ⟨capacity, score, period, quota, drain, classes, hfields, hcapacity, hscore, hperiod,
      hquota, hdrain, hclasses⟩
    simp [ofJson?, hfields, hcapacity, hscore, hperiod, hquota, hdrain, hclasses]

def parse? (text : String) : Option Options := do
  let j ← Json.parse? text
  ofJson? j

end Options

end AccessSampling
