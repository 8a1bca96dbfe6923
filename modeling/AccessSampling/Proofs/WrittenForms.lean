import AccessSampling.IntervalStats.Json
import AccessSampling.Options.Json
import AccessSampling.Record.Json

/-!
# Written forms

What is written is read back. Records and interval statistics are made of words, so this holds of
all of them. Options are made of numbers without a bound; they are read back exactly if every number
fits the word in which it is kept, and no other options are ever read.
-/

namespace AccessSampling

open Json

/-! ## Options that fit their words -/

def Duration.Fits (d : Duration) : Prop := d.seconds < UInt64.size

structure Weights.Fits (w : Weights) : Prop where
  vibrate : -0x80000000 ≤ w.vibrate ∧ w.vibrate < 0x80000000
  hotness : -0x80000000 ≤ w.hotness ∧ w.hotness < 0x80000000
  overhead : -0x80000000 ≤ w.overhead ∧ w.overhead < 0x80000000

structure ScoreOptions.Fits (o : ScoreOptions) : Prop where
  flucMax : o.flucMax < UInt64.size
  hitMax : o.hitMax < UInt64.size
  overheadMax : o.overheadMax < UInt64.size
  weights : o.weights.Fits

structure Ratio.Fits (r : Ratio) : Prop where
  num : r.num < UInt64.size
  den : r.den < UInt64.size

structure PeriodOptions.Fits (o : PeriodOptions) : Prop where
  min : o.min < UInt64.size
  max : o.max < UInt64.size
  ema : o.ema.Fits
  budget : o.budget < UInt64.size
  interval : o.interval.Fits

structure QuotaOptions.Fits (o : QuotaOptions) : Prop where
  cpuPermil : o.cpuPermil < UInt64.size
  tolerancePermil : o.tolerancePermil < UInt64.size
  window : o.window.Fits
  basePeriods : ∀ p ∈ o.basePeriods, p < UInt64.size
  instrPeriods : ∀ p ∈ o.instrPeriods, p < UInt64.size

structure DrainOptions.Fits (o : DrainOptions) : Prop where
  highWatermark : o.highWatermark < UInt8.size
  lowWatermark : o.lowWatermark < UInt8.size
  sleep : o.sleep.Fits
  reportInterval : o.reportInterval.Fits
  milestone : o.milestone < UInt64.size

def ClassOptions.Fits (o : ClassOptions) : Prop := o.initialPeriod < UInt64.size

/-- Every number fits the word in which it is kept. -/
structure Options.Fits (o : Options) : Prop where
  heapCapacity : o.heapCapacity < UInt32.size
  score : o.score.Fits
  period : o.period.Fits
  quota : o.quota.Fits
  drain : o.drain.Fits
  classes : ∀ c, (o.classes.get c).Fits

/-! ## Reading back -/

theorem Duration.subsecNanos_lt (d : Duration) : d.subsecNanos < UInt32.size :=
  Nat.lt_trans (Nat.mod_lt _ (by decide)) (by decide : nanosPerSecond < UInt32.size)

theorem Duration.ofJson?_toJson {d : Duration} (h : d.Fits) : ofJson? d.toJson = some d := by
  refine ofJson?_eq_some_iff.2 ⟨_, _, d.seconds, d.subsecNanos, fields?_ofFields rfl (by simp) _,
    ?_, ?_, d.ofParts_seconds_subsecNanos, h⟩
  · exact natBelow?_ofNat h
  · exact natBelow?_ofNat d.subsecNanos_lt

theorem Weights.ofJson?_toJson {w : Weights} (h : w.Fits) : ofJson? w.toJson = some w := by
  refine ofJson?_eq_some_iff.2 ⟨_, _, _, fields?_ofFields rfl (by simp) _, ?_, ?_, ?_⟩
  · exact signed32?_eq_some_iff.2 ⟨rfl, h.vibrate⟩
  · exact signed32?_eq_some_iff.2 ⟨rfl, h.hotness⟩
  · exact signed32?_eq_some_iff.2 ⟨rfl, h.overhead⟩

theorem ScoreOptions.ofJson?_toJson {o : ScoreOptions} (h : o.Fits) :
    ofJson? o.toJson = some o := by
  refine ofJson?_eq_some_iff.2 ⟨_, _, _, _, fields?_ofFields rfl (by simp) _, ?_, ?_, ?_, ?_⟩
  · exact natBelow?_ofNat h.flucMax
  · exact natBelow?_ofNat h.hitMax
  · exact natBelow?_ofNat h.overheadMax
  · exact Weights.ofJson?_toJson h.weights

theorem Ratio.ofJson?_toJson {r : Ratio} (h : r.Fits) : ofJson? r.toJson = some r := by
  refine ofJson?_eq_some_iff.2 ⟨_, _, fields?_ofFields rfl (by simp) _, ?_, ?_⟩
  · exact natBelow?_ofNat h.num
  · exact natBelow?_ofNat h.den

theorem PeriodOptions.ofJson?_toJson {o : PeriodOptions} (h : o.Fits) :
    ofJson? o.toJson = some o := by
  refine ofJson?_eq_some_iff.2
    ⟨_, _, _, _, _, fields?_ofFields rfl (by simp) _, ?_, ?_, ?_, ?_, ?_⟩
  · exact natBelow?_ofNat h.min
  · exact natBelow?_ofNat h.max
  · exact Ratio.ofJson?_toJson h.ema
  · exact natBelow?_ofNat h.budget
  · exact Duration.ofJson?_toJson h.interval

theorem QuotaOptions.ofJson?_toJson {o : QuotaOptions} (h : o.Fits) :
    ofJson? o.toJson = some o := by
  refine ofJson?_eq_some_iff.2
    ⟨_, _, _, _, _, fields?_ofFields rfl (by simp) _, ?_, ?_, ?_, ?_, ?_⟩
  · exact natBelow?_ofNat h.cpuPermil
  · exact natBelow?_ofNat h.tolerancePermil
  · exact Duration.ofJson?_toJson h.window
  · exact list?_map fun p hp => natBelow?_ofNat (h.basePeriods p hp)
  · exact list?_map fun p hp => natBelow?_ofNat (h.instrPeriods p hp)

theorem DrainOptions.ofJson?_toJson {o : DrainOptions} (h : o.Fits) :
    ofJson? o.toJson = some o := by
  refine ofJson?_eq_some_iff.2
    ⟨_, _, _, _, _, fields?_ofFields rfl (by simp) _, ?_, ?_, ?_, ?_, ?_⟩
  · exact natBelow?_ofNat h.highWatermark
  · exact natBelow?_ofNat h.lowWatermark
  · exact Duration.ofJson?_toJson h.sleep
  · exact Duration.ofJson?_toJson h.reportInterval
  · exact natBelow?_ofNat h.milestone

theorem ClassOptions.ofJson?_toJson {o : ClassOptions} (h : o.Fits) :
    ofJson? o.toJson = some o := by
  refine ofJson?_eq_some_iff.2 ⟨_, _, fields?_ofFields rfl (by simp) _, ?_, rfl⟩
  exact natBelow?_ofNat h

theorem Options.ofJson?_toJson {o : Options} (h : o.Fits) : ofJson? o.toJson = some o := by
  refine ofJson?_eq_some_iff.2
    ⟨_, _, _, _, _, _, fields?_ofFields rfl (by simp) _, ?_, ?_, ?_, ?_, ?_, ?_⟩
  · exact natBelow?_ofNat h.heapCapacity
  · exact ScoreOptions.ofJson?_toJson h.score
  · exact PeriodOptions.ofJson?_toJson h.period
  · exact QuotaOptions.ofJson?_toJson h.quota
  · exact DrainOptions.ofJson?_toJson h.drain
  · refine list?_map fun c hc => ClassOptions.ofJson?_toJson ?_
    obtain ⟨cls, -, rfl⟩ := List.mem_map.1 hc
    exact h.classes cls

/-! ## What is read fits -/

section Fits

variable {j : Json}

theorem Duration.fits_of_ofJson? {d : Duration} (h : ofJson? j = some d) : d.Fits := by
  obtain ⟨_, _, _, _, _, _, _, _, hseconds⟩ := ofJson?_eq_some_iff.1 h
  exact hseconds

theorem Weights.fits_of_ofJson? {w : Weights} (h : ofJson? j = some w) : w.Fits := by
  obtain ⟨_, _, _, -, hvibrate, hhotness, hoverhead⟩ := ofJson?_eq_some_iff.1 h
  exact ⟨(signed32?_eq_some_iff.1 hvibrate).2, (signed32?_eq_some_iff.1 hhotness).2,
    (signed32?_eq_some_iff.1 hoverhead).2⟩

theorem ScoreOptions.fits_of_ofJson? {o : ScoreOptions} (h : ofJson? j = some o) : o.Fits := by
  obtain ⟨_, _, _, _, -, hfluc, hhit, hoverhead, hweights⟩ := ofJson?_eq_some_iff.1 h
  exact ⟨lt_of_natBelow? hfluc, lt_of_natBelow? hhit, lt_of_natBelow? hoverhead,
    Weights.fits_of_ofJson? hweights⟩

theorem Ratio.fits_of_ofJson? {r : Ratio} (h : ofJson? j = some r) : r.Fits := by
  obtain ⟨_, _, -, hnum, hden⟩ := ofJson?_eq_some_iff.1 h
  exact ⟨lt_of_natBelow? hnum, lt_of_natBelow? hden⟩

theorem PeriodOptions.fits_of_ofJson? {o : PeriodOptions} (h : ofJson? j = some o) : o.Fits := by
  obtain ⟨_, _, _, _, _, -, hmin, hmax, hema, hbudget, hinterval⟩ := ofJson?_eq_some_iff.1 h
  exact ⟨lt_of_natBelow? hmin, lt_of_natBelow? hmax, Ratio.fits_of_ofJson? hema,
    lt_of_natBelow? hbudget, Duration.fits_of_ofJson? hinterval⟩

theorem QuotaOptions.fits_of_ofJson? {o : QuotaOptions} (h : ofJson? j = some o) : o.Fits := by
  obtain ⟨_, _, _, _, _, -, hcpu, htolerance, hwindow, hbase, hinstr⟩ := ofJson?_eq_some_iff.1 h
  refine ⟨lt_of_natBelow? hcpu, lt_of_natBelow? htolerance, Duration.fits_of_ofJson? hwindow,
    fun p hp => ?_, fun p hp => ?_⟩
  · obtain ⟨_, hread⟩ := exists_of_list? hbase p hp
    exact lt_of_natBelow? hread
  · obtain ⟨_, hread⟩ := exists_of_list? hinstr p hp
    exact lt_of_natBelow? hread

theorem DrainOptions.fits_of_ofJson? {o : DrainOptions} (h : ofJson? j = some o) : o.Fits := by
  obtain ⟨_, _, _, _, _, -, hhigh, hlow, hsleep, hreport, hmilestone⟩ := ofJson?_eq_some_iff.1 h
  exact ⟨lt_of_natBelow? hhigh, lt_of_natBelow? hlow, Duration.fits_of_ofJson? hsleep,
    Duration.fits_of_ofJson? hreport, lt_of_natBelow? hmilestone⟩

theorem ClassOptions.fits_of_ofJson? {o : ClassOptions} (h : ofJson? j = some o) : o.Fits := by
  obtain ⟨_, _, -, hperiod, -⟩ := ofJson?_eq_some_iff.1 h
  exact lt_of_natBelow? hperiod

theorem Options.fits_of_ofJson? {o : Options} (h : ofJson? j = some o) : o.Fits := by
  obtain ⟨_, _, _, _, _, _, -, hcapacity, hscore, hperiod, hquota, hdrain, hclasses⟩ :=
    ofJson?_eq_some_iff.1 h
  refine ⟨lt_of_natBelow? hcapacity, ScoreOptions.fits_of_ofJson? hscore,
    PeriodOptions.fits_of_ofJson? hperiod, QuotaOptions.fits_of_ofJson? hquota,
    DrainOptions.fits_of_ofJson? hdrain, fun c => ?_⟩
  obtain ⟨_, hread⟩ := exists_of_list? hclasses (o.classes.get c)
    (List.mem_map.2 ⟨c, EventClass.mem_all c, rfl⟩)
  exact ClassOptions.fits_of_ofJson? hread

end Fits

/-- The options that some value is read as are those that fit, and they alone are read back from
their written form. -/
theorem Options.readable_iff_fits {o : Options} :
    ((∃ j, ofJson? j = some o) ↔ o.Fits) ∧ (ofJson? o.toJson = some o ↔ o.Fits) :=
  ⟨⟨fun ⟨_, h⟩ => fits_of_ofJson? h, fun h => ⟨_, ofJson?_toJson h⟩⟩,
    ⟨fits_of_ofJson?, ofJson?_toJson⟩⟩

instance (o : Options) : Decidable o.Fits :=
  decidable_of_iff _ Options.readable_iff_fits.2

/-- The defaults fit. -/
example : ({} : Options).Fits := by decide +kernel

/-! ## Records and statistics -/

theorem Task.ofJson?_toJson (t : Task) :
    ofJson? (.ofFields [("pid", .ofNat t.pid.toNat), ("tid", .ofNat t.tid.toNat)]) = some t :=
  ofJson?_of_fields (fields?_ofFields rfl (by simp) _) (natBelow?_ofNat t.pid.toNat_lt_size)
    (natBelow?_ofNat t.tid.toNat_lt_size)

theorem Sample.ofJson?_toJson (s : Sample) : ofJson? s.toJson = some s :=
  ofJson?_of_fields (fields?_ofFields rfl (by simp) _) (word64?_ofWord64 s.ip)
    s.task.ofJson?_toJson (word64?_ofWord64 s.time) (word64?_ofWord64 s.addr)

theorem Throttle.ofJson?_toJson (t : Throttle) : ofJson? t.toJson = some t :=
  ofJson?_of_fields (fields?_ofFields rfl (by simp) _) (word64?_ofWord64 t.time)
    (word64?_ofWord64 t.id) (word64?_ofWord64 t.streamId)

/-- Every record is read back from its written form. -/
theorem Record.ofJson?_toJson (r : Record) : ofJson? r.toJson = some r := by
  cases r with
  | sample s => rw [toJson, ofJson?_ofFields, ofKind?, s.ofJson?_toJson, Option.map_some]
  | throttle t => rw [toJson, ofJson?_ofFields, ofKind?, t.ofJson?_toJson, Option.map_some]
  | unthrottle t => rw [toJson, ofJson?_ofFields, ofKind?, t.ofJson?_toJson, Option.map_some]
  | lostSamples n =>
      rw [toJson, ofJson?_ofFields]
      exact ofKind?_lostSamples (fields?_ofFields rfl (by simp) _) (word64?_ofWord64 n)
  | other kind =>
      rw [toJson, ofJson?_ofFields, ofKind?, word32?, natBelow?_ofNat kind.toNat_lt_size,
        Option.map_some, UInt32.ofNat_toNat]

/-- Every statistics are read back from their written form. -/
theorem IntervalStats.ofJson?_toJson (s : IntervalStats) : ofJson? s.toJson = some s :=
  ofJson?_of_fields (fields?_ofFields rfl (by simp) _) (word64?_ofWord64 s.lastTime)
    (natBelow?_ofNat s.count.toNat_lt_size) (word64?_ofWord64 s.mean) (word64?_ofWord64 s.m2)

end AccessSampling
