import AccessSampling.AdaptiveLoop
import AccessSampling.Proofs.SourceCalls
import Mathlib.Data.List.Induction

/-!
# What an adaptive cycle does

The first half reads the period of every adaptive class once, in the order of the classes, and
proposes a period for each that could be read. The second half writes the final periods in the same
order.
-/

namespace AccessSampling

namespace AdaptiveLoop

/-! ## The survey -/

section Survey

variable {ι : Type} [DecidableEq ι] (l : AdaptiveLoop) (w : PeriodWriter) (t : Tally ι)
  (o : ScoreOptions)

/-- Whether a class is adaptive and its period can be read. -/
def reads (c : EventClass) : Bool := decide (c ∈ l.adaptive) && !w.source.refuses c .period

/-- The samples of a class since the previous cycle. -/
def recent (c : EventClass) : Nat := t.samples.get c - l.lastSamples.get c

/-- The target that the score of a class asks for. -/
def targetOf (c : EventClass) : Nat := l.options.target (t.metrics o c).composite

/-- The proposal for a class whose period can be read. -/
def proposal (c : EventClass) : Projection where
  cls := c
  events := l.recent t c * w.source.periods.get c
  period := l.options.ema.smooth (w.source.periods.get c) (l.targetOf t o c)

/-- The metrics of a class after the first half of a cycle. -/
def surveyMetrics (c : EventClass) : Metrics :=
  let m := { t.metrics o c with currentPeriod := w.known.get c }
  if c ∈ l.adaptive then
    let m := { m with targetPeriod := l.targetOf t o c }
    if w.source.refuses c .period then m
    else
      { m with
        currentPeriod := w.source.periods.get c
        smoothedPeriod := (l.proposal w t o c).period }
  else m

/-- The state of the first half of a cycle after some classes. -/
structure Surveyed (cs : List EventClass) (s : Survey) : Prop where
  source : s.writer.source =
    { w.source with
      calls := w.source.calls ++
        ((cs.filter (· ∈ l.adaptive)).map fun c => w.source.entry (.period c)).toArray }
  known : ∀ c, s.writer.known.get c =
    if c ∈ cs ∧ l.reads w c then w.source.periods.get c else w.known.get c
  metrics : ∀ c ∈ cs, s.metrics.get c = l.surveyMetrics w t o c
  projections : s.projections = (cs.filter (l.reads w)).map (l.proposal w t o)
  failed : s.failed = cs.countP fun c => decide (c ∈ l.adaptive) && w.source.refuses c .period

variable {l w t o}

theorem surveyed_nil : l.Surveyed w t o [] { writer := w } where
  source := by simp
  known := by simp
  metrics := by simp
  projections := rfl
  failed := rfl

/-- The metrics of the classes so far stay when another class gets its own. -/
theorem Surveyed.metrics_set {cs : List EventClass} {s : Survey} {c : EventClass} {m : Metrics}
    (h : l.Surveyed w t o cs s) (hc : c ∉ cs) (hm : m = l.surveyMetrics w t o c) :
    ∀ d ∈ cs ++ [c], (s.metrics.set c m).get d = l.surveyMetrics w t o d := by
  intro d hd
  rcases List.mem_append.1 hd with hd | hd
  · have hne : d ≠ c := fun heq => hc (heq ▸ hd)
    rw [PerClass.get_set_of_ne _ _ hne, h.metrics d hd]
  · rw [List.mem_singleton.1 hd, PerClass.get_set_self, hm]

theorem surveyClass_of_fixed {s : Survey} {c : EventClass} (hc : c ∉ l.adaptive) :
    l.surveyClass t o s c =
      { s with
        metrics := s.metrics.set c
          { t.metrics o c with currentPeriod := s.writer.known.get c } } := by
  simp only [surveyClass]
  rw [if_neg hc]

theorem surveyClass_of_refused {s : Survey} {c : EventClass} (hc : c ∈ l.adaptive)
    (hrefused : s.writer.source.refuses c .period = true) :
    l.surveyClass t o s c =
      { s with
        writer := { s.writer with source := s.writer.source.logged (.period c) }
        metrics := s.metrics.set c
          { t.metrics o c with
            currentPeriod := s.writer.known.get c
            targetPeriod := l.targetOf t o c }
        failed := s.failed + 1 } := by
  simp only [surveyClass]
  rw [if_pos hc, PeriodWriter.get_of_refused hrefused]
  rfl

theorem surveyClass_of_read {s : Survey} {c : EventClass} (hc : c ∈ l.adaptive)
    (hgranted : s.writer.source.refuses c .period = false) :
    l.surveyClass t o s c =
      { s with
        writer :=
          { source := s.writer.source.logged (.period c)
            known := s.writer.known.set c (s.writer.source.periods.get c) }
        metrics := s.metrics.set c
          { t.metrics o c with
            currentPeriod := s.writer.source.periods.get c
            targetPeriod := l.targetOf t o c
            smoothedPeriod := (l.proposal s.writer t o c).period }
        projections := s.projections ++ [l.proposal s.writer t o c] } := by
  simp only [surveyClass]
  rw [if_pos hc, PeriodWriter.get_of_granted hgranted]
  rfl

/-- The periods last seen change by the period of a class that is read. -/
theorem Surveyed.known_append {cs : List EventClass} {s : Survey} {c : EventClass}
    (h : l.Surveyed w t o cs s) (d : EventClass) :
    (if d = c ∧ l.reads w c then w.source.periods.get c else s.writer.known.get d) =
      if d ∈ cs ++ [c] ∧ l.reads w d then w.source.periods.get d else w.known.get d := by
  rw [h.known]
  by_cases hd : d = c
  · subst hd
    cases l.reads w d with
    | true => simp
    | false => simp
  · simp [hd]

/-- One more class. -/
theorem Surveyed.surveyClass {cs : List EventClass} {s : Survey} {c : EventClass}
    (h : l.Surveyed w t o cs s) (hc : c ∉ cs) :
    l.Surveyed w t o (cs ++ [c]) (l.surveyClass t o s c) := by
  -- the classes so far changed the log alone, so this class meets the source as it was
  have hrefuses : s.writer.source.refuses = w.source.refuses := by rw [h.source]
  have hperiods : s.writer.source.periods = w.source.periods := by rw [h.source]
  have hknown : s.writer.known.get c = w.known.get c := by
    rw [h.known, if_neg (fun hand => hc hand.1)]
  by_cases hadaptive : c ∈ l.adaptive
  · cases hread : w.source.refuses c .period with
    | true =>
        have hreads : l.reads w c = false := by simp [reads, hread]
        rw [surveyClass_of_refused hadaptive (by rw [hrefuses, hread])]
        refine ⟨?_, ?_, h.metrics_set hc ?_, ?_, ?_⟩
        · simp [h.source, EventSource.logged, EventSource.entry, List.filter_append, hadaptive]
        · intro d
          rw [← h.known_append, if_neg (by simp [hreads])]
        · simp [surveyMetrics, hadaptive, hread, hknown]
        · rw [h.projections]
          simp [List.filter_append, hreads]
        · rw [h.failed]
          simp [hadaptive, hread]
    | false =>
        have hreads : l.reads w c = true := by simp [reads, hadaptive, hread]
        have hproposal : l.proposal s.writer t o c = l.proposal w t o c := by
          rw [proposal, proposal, hperiods]
        rw [surveyClass_of_read hadaptive (by rw [hrefuses, hread]), hperiods, hproposal]
        refine ⟨?_, ?_, h.metrics_set hc ?_, ?_, ?_⟩
        · simp [h.source, EventSource.logged, EventSource.entry, List.filter_append, hadaptive]
        · intro d
          show (s.writer.known.set c (w.source.periods.get c)).get d = _
          rw [← h.known_append, PerClass.get_set]
          simp [hreads]
        · simp [surveyMetrics, hadaptive, hread]
        · rw [h.projections]
          simp [List.filter_append, hreads]
        · rw [h.failed]
          simp [hread]
  · have hreads : l.reads w c = false := by simp [reads, hadaptive]
    rw [surveyClass_of_fixed hadaptive]
    refine ⟨?_, ?_, h.metrics_set hc ?_, ?_, ?_⟩
    · simp [h.source, List.filter_append, hadaptive]
    · intro d
      rw [← h.known_append, if_neg (by simp [hreads])]
    · simp [surveyMetrics, hadaptive, hknown]
    · rw [h.projections]
      simp [List.filter_append, hreads]
    · rw [h.failed]
      simp [hadaptive]

theorem Surveyed.foldl {done todo : List EventClass} {s : Survey} (h : l.Surveyed w t o done s)
    (hnodup : (done ++ todo).Nodup) :
    l.Surveyed w t o (done ++ todo) (todo.foldl (l.surveyClass t o) s) := by
  induction todo generalizing done s with
  | nil => simpa using h
  | cons c todo ih =>
      rw [List.append_cons] at hnodup ⊢
      have hc : c ∉ done := by
        have hdone := (List.nodup_append.1 (List.nodup_append.1 hnodup).1).2.2
        exact fun hmem => hdone c hmem c (by simp) rfl
      exact ih (h.surveyClass hc) hnodup

/-- What the first half of a cycle does. -/
theorem surveyed_all (l : AdaptiveLoop) (w : PeriodWriter) (t : Tally ι) (o : ScoreOptions) :
    l.Surveyed w t o EventClass.all (l.survey w t o) :=
  Surveyed.foldl surveyed_nil EventClass.nodup_all

end Survey

/-! ## The writes -/

section Retune

/-- The state of the second half of a cycle after some writes: every period went to the source, and
the metrics changed by the periods in effect alone. -/
structure Retuned (w : PeriodWriter) (metrics : PerClass Metrics) (ps : List Projection)
    (r : Retuning) : Prop where
  refuses : r.writer.source.refuses = w.source.refuses
  calls : r.writer.source.calls =
    w.source.calls ++ (ps.map fun p => w.source.entry (.setPeriod p.cls p.period)).toArray
  metrics : ∀ c, ∃ current, r.metrics.get c = { metrics.get c with currentPeriod := current }

variable {w : PeriodWriter} {metrics : PerClass Metrics}

theorem Retuned.retuneClass {ps : List Projection} {r : Retuning} (h : Retuned w metrics ps r)
    (p : Projection) : Retuned w metrics (ps ++ [p]) (retuneClass r p) := by
  cases hrefused : w.source.refuses p.cls .setPeriod with
  | true =>
      rw [AdaptiveLoop.retuneClass, PeriodWriter.set_of_refused (by rw [h.refuses, hrefused])]
      refine ⟨h.refuses, ?_, h.metrics⟩
      simp [EventSource.logged, EventSource.entry, h.calls, h.refuses]
  | false =>
      rw [AdaptiveLoop.retuneClass, PeriodWriter.set_of_granted (by rw [h.refuses, hrefused])]
      refine ⟨h.refuses, ?_, ?_⟩
      · simp [EventSource.logged, EventSource.entry, h.calls, h.refuses]
      · intro c
        show ∃ current, (r.metrics.modify p.cls _).get c = _
        rw [PerClass.get_modify]
        split
        · rename_i hc
          obtain ⟨current, hcurrent⟩ := h.metrics p.cls
          exact ⟨p.period, by rw [hc, hcurrent]⟩
        · exact h.metrics c

/-- What the second half of a cycle does. -/
theorem retuned_retune (w : PeriodWriter) (metrics : PerClass Metrics) (ps : List Projection) :
    Retuned w metrics ps (retune w metrics ps) := by
  induction ps using List.reverseRecOn with
  | nil => exact ⟨rfl, by simp [retune], fun c => ⟨_, rfl⟩⟩
  | append_singleton ps p ih =>
      rw [retune, List.foldl_append]
      exact ih.retuneClass p

end Retune

/-! ## The cycle -/

section Adapt

variable {ι : Type} [DecidableEq ι]

variable {l : AdaptiveLoop} {w : PeriodWriter} {t : Tally ι} {o : ScoreOptions}
  {budget : BudgetOutcome} {qs : List Projection}

/-- A cycle writes what the budget made of the proposals. -/
theorem adapt_eq
    (h : enforceBudget l.options.budget l.options.max
      ((EventClass.all.filter (l.reads w)).map (l.proposal w t o)) = (budget, qs)) :
    l.adapt w t o =
      { cycle :=
          { adapted := (retune (l.survey w t o).writer (l.survey w t o).metrics qs).adapted
            failed := (l.survey w t o).failed +
              (retune (l.survey w t o).writer (l.survey w t o).metrics qs).failed
            budget }
        metrics := (retune (l.survey w t o).writer (l.survey w t o).metrics qs).metrics
        loop := { l with lastSamples := t.samples }
        writer := (retune (l.survey w t o).writer (l.survey w t o).metrics qs).writer } := by
  rw [adapt, (surveyed_all l w t o).projections, h]

/-- The writes are logged after the reads, and the targets and smoothed periods of the metrics are
those of the proposals. -/
theorem adapt_calls
    (h : enforceBudget l.options.budget l.options.max
      ((EventClass.all.filter (l.reads w)).map (l.proposal w t o)) = (budget, qs)) :
    (l.adapt w t o).cycle.budget = budget ∧
      (l.adapt w t o).writer.source.calls =
        w.source.calls ++
          ((EventClass.all.filter (· ∈ l.adaptive)).map
            fun c => w.source.entry (.period c)).toArray ++
          (qs.map fun q => w.source.entry (.setPeriod q.cls q.period)).toArray ∧
      ∀ c, ∃ current, (l.adapt w t o).metrics.get c =
        { l.surveyMetrics w t o c with currentPeriod := current } := by
  have hsurvey := surveyed_all l w t o
  have hretune := retuned_retune (l.survey w t o).writer (l.survey w t o).metrics qs
  rw [adapt_eq h]
  refine ⟨rfl, ?_, ?_⟩
  · show (retune _ _ qs).writer.source.calls = _
    rw [hretune.calls, hsurvey.source]
    rfl
  · intro c
    obtain ⟨current, hcurrent⟩ := hretune.metrics c
    exact ⟨current, by rw [hcurrent, hsurvey.metrics c (EventClass.mem_all c)]⟩

end Adapt

end AdaptiveLoop

end AccessSampling
