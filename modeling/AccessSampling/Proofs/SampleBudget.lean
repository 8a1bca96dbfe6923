import AccessSampling.Options.Validation
import AccessSampling.Proofs.AdaptiveCycle
import AccessSampling.Proofs.BudgetBound
import AccessSampling.Proofs.PeriodMapping

/-!
# The sample budget of a cycle

A cycle estimates the hardware events of a class as its recent samples times the period in effect. A
period of zero therefore comes with an estimate of zero, and a positive one stays positive when it
is smoothed towards a target, so every proposal is sound and the budget bounds the samples that the
written periods stand for.
-/

namespace AccessSampling

namespace AdaptiveLoop

section Budget

variable {ι : Type} [DecidableEq ι]

/-- The samples of an interval like the last one, for some classes at given periods. -/
def volumeAt (l : AdaptiveLoop) (w : PeriodWriter) (t : Tally ι) (cs : List EventClass)
    (period : EventClass → Nat) : Nat :=
  (cs.map fun c => l.recent t c * w.source.periods.get c / max (period c) 1).sum

/-! ## Proposals -/

/-- A period that was smoothed towards the target of a score makes a sound proposal. -/
theorem sound_smoothed {o : Options} (hv : o.Valid) {l : AdaptiveLoop}
    (hl : l.options = o.period) (c : EventClass) (recent current score : Nat) :
    Projection.Sound
      { cls := c
        events := recent * current
        period := l.options.ema.smooth current (l.options.target score) } := by
  intro hevents
  have hcurrent : 0 < current := Nat.pos_of_mul_pos_left hevents
  have htarget : 0 < l.options.target score := by
    rw [hl]
    exact Nat.lt_of_lt_of_le hv.min_pos
      (PeriodOptions.target_between (Nat.le_of_lt hv.min_lt_max) score).1
  exact Ratio.smooth_pos (by rw [hl]; exact hv.den_pos) (by rw [hl]; exact hv.num_le_den) hcurrent
    htarget

theorem sound_proposal {o : Options} (hv : o.Valid) {l : AdaptiveLoop}
    (hl : l.options = o.period) (w : PeriodWriter) (t : Tally ι) (c : EventClass) :
    (l.proposal w t o.score c).Sound :=
  sound_smoothed hv hl c _ _ _

/-- A raised list of proposals of distinct classes gives each class a period of its own. -/
theorem exists_next {ceiling : Nat} {f : EventClass → Projection} {cs : List EventClass}
    {qs : List Projection} (hnodup : cs.Nodup)
    (h : List.Forall₂ (Projection.RaisedTo ceiling) (cs.map f) qs) :
    ∃ next : EventClass → Nat, qs = cs.map (fun c => (f c).withPeriod (next c)) ∧
      ∀ c ∈ cs, (f c).period ≤ next c ∧ next c ≤ max ceiling (f c).period := by
  induction cs generalizing qs with
  | nil =>
      rw [List.map_nil, List.forall₂_nil_left_iff] at h
      exact ⟨fun _ => 0, h, by simp⟩
  | cons c cs ih =>
      rw [List.map_cons, List.forall₂_cons_left_iff] at h
      obtain ⟨q, qs, hq, hqs, rfl⟩ := h
      obtain ⟨hc, hnodup⟩ := List.nodup_cons.1 hnodup
      obtain ⟨next, rfl, hnext⟩ := ih hnodup hqs
      -- the first class does not come again, so its period can be set after the others
      have hother : ∀ d ∈ cs, d ≠ c := fun d hd heq => hc (heq ▸ hd)
      refine ⟨Function.update next c q.period, ?_, ?_⟩
      · rw [List.map_cons, Function.update_self, ← hq.eq_withPeriod]
        refine congrArg (q :: ·) (List.map_congr_left fun d hd => ?_)
        rw [Function.update_of_ne (hother d hd)]
      · intro d hd
        rcases List.mem_cons.1 hd with rfl | hd
        · rw [Function.update_self]
          exact ⟨hq.le, hq.le_ceiling⟩
        · rw [Function.update_of_ne (hother d hd)]
          exact hnext d hd

/-- What the budget makes of proposals for distinct classes: periods that fit, or the ceiling for
every class if not even that fits. -/
theorem enforceBudget_next (budget ceiling : Nat) {f : EventClass → Projection}
    {cs : List EventClass} (hnodup : cs.Nodup) (hsound : ∀ c ∈ cs, (f c).Sound) :
    ∃ (outcome : BudgetOutcome) (next : EventClass → Nat),
      enforceBudget budget ceiling (cs.map f) =
        (outcome, cs.map fun c => (f c).withPeriod (next c)) ∧
      (∀ c ∈ cs, (f c).period ≤ next c ∧ next c ≤ max ceiling (f c).period) ∧
      (totalVolume (cs.map fun c => (f c).withPeriod (next c)) ≤ budget + max cs.length 1 - 1 ∨
        (∃ before after, outcome = .infeasible before after) ∧
        (∀ c ∈ cs, next c = max ceiling (f c).period) ∧
        budget < totalVolume (cs.map fun c => (f c).withPeriod (next c))) := by
  have hproposals : ∀ p ∈ cs.map f, p.Sound := by simpa using hsound
  rcases enforceBudget_cases budget ceiling hproposals with
    ⟨hfits, hbudget⟩ | ⟨hover, hbudget⟩ | ⟨qs, hsettled, hbudget⟩
  · refine ⟨_, fun c => (f c).period, hbudget, ?_, .inl ?_⟩
    · exact fun c _ => ⟨Nat.le_refl _, Nat.le_max_right ..⟩
    · exact Nat.le_trans hfits (by omega)
  · rw [List.map_map] at hbudget hover
    refine ⟨_, fun c => max ceiling (f c).period, hbudget, ?_, .inr ⟨⟨_, _, rfl⟩, ?_, hover⟩⟩
    · exact fun c _ => ⟨Nat.le_max_right .., Nat.le_refl _⟩
    · exact fun c _ => rfl
  · obtain ⟨next, rfl, hnext⟩ := exists_next hnodup hsettled.raised
    refine ⟨_, next, hbudget, hnext, .inl ?_⟩
    have hvolume := hsettled.volume_le
    rw [List.length_map] at hvolume
    omega

/-! ## The cycle -/

/-- For every valid choice of options a cycle runs, reads the adaptive classes and writes one period
for each class that it could read. Either the samples at these periods exceed the budget by less
than one for each class, or the budget is infeasible: every period is at the ceiling, and even then
there are more samples. In both cases a period lies between its smoothed period and the ceiling, and
the smoothed period between the period in effect and the target. -/
theorem adapt_meets_budget {o : Options} (hv : o.Valid) (adaptive : List EventClass)
    (last : PerClass Nat) (w : PeriodWriter) (t : Tally ι) :
    let l : AdaptiveLoop := { options := o.period, adaptive, lastSamples := last }
    let cs := EventClass.all.filter (l.reads w)
    ∃ (out : Outcome) (next : EventClass → Nat), l.adapt? w t o.score = .ok out ∧
      out.writer.source.calls.toList =
        w.source.calls.toList ++
          ((EventClass.all.filter (· ∈ adaptive)).map fun c => w.source.entry (.period c)) ++
          (cs.map fun c => w.source.entry (.setPeriod c (next c))) ∧
      (l.volumeAt w t cs next ≤ o.period.budget + max cs.length 1 - 1 ∨
        (∃ before after, out.cycle.budget = .infeasible before after) ∧
          (∀ c ∈ cs, next c = max o.period.max (out.metrics.get c).smoothedPeriod) ∧
          o.period.budget < l.volumeAt w t cs next) ∧
      ∀ c ∈ cs,
        let current := w.source.periods.get c
        let target := o.period.target (t.metrics o.score c).composite
        let smoothed := (out.metrics.get c).smoothedPeriod
        smoothed ≤ next c ∧ next c ≤ max o.period.max smoothed ∧
          min current target ≤ smoothed ∧ smoothed ≤ max current target := by
  intro l cs
  have hcs : cs.Nodup := EventClass.nodup_all.filter _
  have hsound : ∀ c ∈ cs, (l.proposal w t o.score c).Sound :=
    fun c _ => sound_proposal hv rfl w t c
  obtain ⟨outcome, next, hbudget, hnext, hfits⟩ :=
    enforceBudget_next o.period.budget o.period.max hcs hsound
  obtain ⟨houtcome, hcalls, hmetrics⟩ := adapt_calls hbudget
  have hsmoothed : ∀ c ∈ cs,
      ((l.adapt w t o.score).metrics.get c).smoothedPeriod = (l.proposal w t o.score c).period := by
    intro c hc
    obtain ⟨current, hcurrent⟩ := hmetrics c
    have hread := (List.mem_filter.1 hc).2
    simp only [reads, Bool.and_eq_true, decide_eq_true_eq, Bool.not_eq_true'] at hread
    rw [hcurrent, surveyMetrics, if_pos hread.1]
    simp [hread.2]
  refine ⟨l.adapt w t o.score, next, ?_, ?_, ?_, ?_⟩
  · rw [adapt?, if_neg (fun h => Nat.ne_of_gt hv.den_pos h.1)]
  · rw [hcalls, Array.toList_append, Array.toList_append, List.map_map]
    rfl
  · have hvolume : totalVolume (cs.map fun c => (l.proposal w t o.score c).withPeriod (next c)) =
        l.volumeAt w t cs next := by
      rw [totalVolume_eq_sum, List.map_map]
      rfl
    rw [hvolume] at hfits
    rcases hfits with hfits | ⟨hinfeasible, hceiling, hover⟩
    · exact .inl hfits
    · refine .inr ⟨?_, ?_, hover⟩
      · rw [houtcome]
        exact hinfeasible
      · intro c hc
        rw [hceiling c hc, hsmoothed c hc]
  · intro c hc current target smoothed
    have heq : smoothed = (l.proposal w t o.score c).period := hsmoothed c hc
    rw [heq]
    exact ⟨(hnext c hc).1, (hnext c hc).2, Ratio.smooth_between hv.den_pos hv.num_le_den ..⟩

end Budget

/-! ## A busy interval -/

/-- One class cannot be read, and another has a period of zero. -/
def busyWriter : PeriodWriter where
  source :=
    { cpus := [0]
      ringSize := 4096
      refuses := fun c op => c = .nvmRead && op = .period
      periods := (PerClass.replicate 5000).set .dramRead 0 }
  known := .replicate 5000

/-- Every class took 80000 samples. -/
def busyTally : Tally UInt64 := { Tally.empty 4 with samples := .replicate 80000 }

/-- With the default options, three of four adaptive classes get a period. -/
theorem busy_meets_budget :
    let l : AdaptiveLoop :=
      { options := {}, adaptive := [.l3Hit, .l3Miss, .dramRead, .nvmRead] }
    ({} : Options).Valid ∧
      ∃ (out : Outcome) (next : EventClass → Nat), l.adapt? busyWriter busyTally {} = .ok out ∧
        (l.volumeAt busyWriter busyTally [.l3Hit, .l3Miss, .dramRead] next ≤ 50000 + 3 - 1 ∨
          ∃ before after, out.cycle.budget = .infeasible before after) := by
  intro l
  have hv : ({} : Options).Valid := by decide
  obtain ⟨out, next, hout, -, hfits, -⟩ := adapt_meets_budget hv
    [.l3Hit, .l3Miss, .dramRead, .nvmRead] (.replicate 0) busyWriter busyTally
  have hcs : EventClass.all.filter (l.reads busyWriter) = [.l3Hit, .l3Miss, .dramRead] := by
    decide
  rw [hcs] at hfits
  exact ⟨hv, out, next, hout, hfits.imp_right (·.1)⟩

end AdaptiveLoop

end AccessSampling
