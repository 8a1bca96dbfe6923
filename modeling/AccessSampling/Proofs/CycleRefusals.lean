import AccessSampling.Proofs.AdaptiveCycle
import AccessSampling.Proofs.BudgetBound
import Mathlib.Data.List.Dedup

/-!
# Refused calls of a cycle

All classes of a cycle share one budget, but a refused call concerns its own class alone. A class
that cannot be read takes no part in the budget and is not written, and one that cannot be written
keeps the period that was just read, while the others get what they would have got anyway. That is
because the periods are final before the first of them is written.
-/

namespace AccessSampling

/-- What a cycle can change of a class. -/
structure ClassState where
  metrics : Metrics
  /-- The period that the source has. -/
  period : Nat
  /-- The period that is known of the source. -/
  known : Nat

/-- The class after a granted write. -/
def ClassState.write (s : ClassState) (period : Nat) : ClassState :=
  { metrics := { s.metrics with currentPeriod := period }, period, known := period }

def PeriodWriter.classState (w : PeriodWriter) (metrics : PerClass Metrics) (c : EventClass) :
    ClassState :=
  { metrics := metrics.get c, period := w.source.periods.get c, known := w.known.get c }

/-- The writer with other answers of the source. -/
def PeriodWriter.withRefusals (w : PeriodWriter) (refuses : EventClass → SourceOp → Bool) :
    PeriodWriter :=
  { w with source := { w.source with refuses } }

namespace AdaptiveLoop

/-! ## The writes, class by class -/

section Writes

/-- A class in the course of the writes. -/
def retunedState (r : Retuning) (c : EventClass) : ClassState := r.writer.classState r.metrics c

variable {r r' : Retuning} {p : Projection} {qs : List Projection} {c : EventClass}

theorem refuses_retuneClass (r : Retuning) (p : Projection) :
    (retuneClass r p).writer.source.refuses = r.writer.source.refuses := by
  cases h : r.writer.source.refuses p.cls .setPeriod with
  | true =>
      rw [retuneClass, PeriodWriter.set_of_refused h]
      rfl
  | false =>
      rw [retuneClass, PeriodWriter.set_of_granted h]
      rfl

/-- A write that is granted changes its class, and any other write changes nothing. -/
theorem retunedState_retuneClass (r : Retuning) (p : Projection) (c : EventClass) :
    retunedState (retuneClass r p) c =
      if p.cls = c ∧ r.writer.source.refuses c .setPeriod = false then
        (retunedState r c).write p.period
      else retunedState r c := by
  cases h : r.writer.source.refuses p.cls .setPeriod with
  | true =>
      rw [retuneClass, PeriodWriter.set_of_refused h, if_neg]
      · rfl
      · rintro ⟨rfl, hgranted⟩
        rw [h] at hgranted
        cases hgranted
  | false =>
      rw [retuneClass, PeriodWriter.set_of_granted h]
      by_cases hc : p.cls = c
      · subst hc
        simp [retunedState, PeriodWriter.classState, ClassState.write, PerClass.modify, h]
      · have hne : c ≠ p.cls := fun heq => hc heq.symm
        simp [retunedState, PeriodWriter.classState, PerClass.modify, PerClass.get_set, hne, hc]

/-- Every write is either granted or refused. -/
theorem adapted_add_failed_foldl (r : Retuning) (qs : List Projection) :
    (qs.foldl retuneClass r).adapted + (qs.foldl retuneClass r).failed =
      r.adapted + r.failed + qs.length := by
  induction qs generalizing r with
  | nil => rfl
  | cons q qs ih =>
      have hone : (retuneClass r q).adapted + (retuneClass r q).failed =
          r.adapted + r.failed + 1 := by
        rcases hset : r.writer.set q.cls q.period with ⟨answer, writer⟩
        cases answer with
        | error e => simp [retuneClass, hset, Nat.add_assoc]
        | ok u => simp [retuneClass, hset, Nat.add_right_comm]
      rw [List.foldl_cons, ih, hone, List.length_cons]
      omega

/-- A class to which no write is granted stays as it was. -/
theorem retunedState_foldl_of_not_written
    (h : c ∉ qs.map Projection.cls ∨ r.writer.source.refuses c .setPeriod = true) :
    retunedState (qs.foldl retuneClass r) c = retunedState r c := by
  induction qs generalizing r with
  | nil => rfl
  | cons q qs ih =>
      have hone : retunedState (retuneClass r q) c = retunedState r c := by
        rw [retunedState_retuneClass, if_neg]
        rintro ⟨rfl, hgranted⟩
        rcases h with hmem | hrefused
        · exact hmem (by simp)
        · rw [hrefused] at hgranted
          cases hgranted
      rw [List.foldl_cons, ih, hone]
      rcases h with hmem | hrefused
      · exact .inl fun hc => hmem (by simp [hc])
      · exact .inr (by rw [refuses_retuneClass, hrefused])

/-- The same writes do the same to a class if they are answered alike for it, whatever the answers
for other classes are. -/
theorem retunedState_foldl_congr (hstate : retunedState r c = retunedState r' c)
    (hrefuses : r.writer.source.refuses c .setPeriod = r'.writer.source.refuses c .setPeriod)
    (qs : List Projection) :
    retunedState (qs.foldl retuneClass r) c = retunedState (qs.foldl retuneClass r') c := by
  -- a write changes no answer, so both hypotheses go through the induction
  induction qs generalizing r r' with
  | nil => exact hstate
  | cons q qs ih =>
      rw [List.foldl_cons, List.foldl_cons]
      apply ih
      · rw [retunedState_retuneClass, retunedState_retuneClass, hstate, hrefuses]
      · rw [refuses_retuneClass, refuses_retuneClass, hrefuses]

end Writes

/-! ## The cycle, class by class -/

section Cycle

variable {ι : Type} [DecidableEq ι]

/-- A class after a cycle. -/
def Outcome.classState (out : Outcome) (c : EventClass) : ClassState :=
  out.writer.classState out.metrics c

omit [DecidableEq ι] in
theorem Outcome.of_classState {out : Outcome} {c : EventClass} {s : ClassState}
    (h : out.classState c = s) :
    out.metrics.get c = s.metrics ∧ out.writer.source.periods.get c = s.period ∧
      out.writer.known.get c = s.known := by
  subst h
  exact ⟨rfl, rfl, rfl⟩

omit [DecidableEq ι] in
theorem Outcome.of_classState_eq {out out' : Outcome} {c : EventClass}
    (h : out.classState c = out'.classState c) :
    out.metrics.get c = out'.metrics.get c ∧
      out.writer.source.periods.get c = out'.writer.source.periods.get c ∧
      out.writer.known.get c = out'.writer.known.get c :=
  of_classState h

/-- A class after the first half of a cycle. -/
def surveyedState (l : AdaptiveLoop) (w : PeriodWriter) (t : Tally ι) (o : ScoreOptions)
    (c : EventClass) : ClassState where
  metrics := l.surveyMetrics w t o c
  period := w.source.periods.get c
  known := if l.reads w c then w.source.periods.get c else w.known.get c

/-- What the budget makes of the proposals. -/
def finalProjections (l : AdaptiveLoop) (w : PeriodWriter) (t : Tally ι) (o : ScoreOptions) :
    BudgetOutcome × List Projection :=
  enforceBudget l.options.budget l.options.max
    ((EventClass.all.filter (l.reads w)).map (l.proposal w t o))

/-- The calls of a cycle: the reads, and then the writes. -/
def cycleCalls (l : AdaptiveLoop) (w : PeriodWriter) (t : Tally ι) (o : ScoreOptions) :
    List SourceCall :=
  (EventClass.all.filter (· ∈ l.adaptive)).map .period ++
    (l.finalProjections w t o).2.map fun q => .setPeriod q.cls q.period

variable (l : AdaptiveLoop) (w : PeriodWriter) (t : Tally ι) (o : ScoreOptions)

theorem map_cls_finalProjections :
    (l.finalProjections w t o).2.map Projection.cls = EventClass.all.filter (l.reads w) := by
  rw [finalProjections, map_cls_enforceBudget, List.map_map]
  exact List.map_id _

theorem enforceBudget_proposals :
    enforceBudget l.options.budget l.options.max
        ((EventClass.all.filter (l.reads w)).map (l.proposal w t o)) =
      ((l.finalProjections w t o).1, (l.finalProjections w t o).2) :=
  rfl

/-- Only classes that could be read are written. -/
theorem reads_of_mem_cycleCalls {c : EventClass} {p : Nat}
    (h : .setPeriod c p ∈ l.cycleCalls w t o) : l.reads w c = true := by
  rw [cycleCalls, List.mem_append] at h
  rcases h with hread | hwrite
  · obtain ⟨d, -, heq⟩ := List.mem_map.1 hread
    cases heq
  · obtain ⟨q, hq, heq⟩ := List.mem_map.1 hwrite
    cases heq
    have hcls : q.cls ∈ (l.finalProjections w t o).2.map Projection.cls := List.mem_map_of_mem hq
    rw [map_cls_finalProjections] at hcls
    exact (List.mem_filter.1 hcls).2

/-- Every class that could be read is written. -/
theorem exists_mem_cycleCalls {c : EventClass} (h : l.reads w c = true) :
    ∃ p, .setPeriod c p ∈ l.cycleCalls w t o := by
  have hcls : c ∈ (l.finalProjections w t o).2.map Projection.cls := by
    rw [map_cls_finalProjections]
    simp [h]
  obtain ⟨q, hq, rfl⟩ := List.mem_map.1 hcls
  exact ⟨q.period, List.mem_append_right _ (List.mem_map_of_mem hq)⟩

theorem budget_adapt : (l.adapt w t o).cycle.budget = (l.finalProjections w t o).1 :=
  (adapt_calls (l.enforceBudget_proposals w t o)).1

theorem calls_adapt :
    (l.adapt w t o).writer.source.calls =
      w.source.calls ++ ((l.cycleCalls w t o).map w.source.entry).toArray := by
  obtain ⟨-, hcalls, -⟩ := adapt_calls (l.enforceBudget_proposals w t o)
  rw [hcalls, cycleCalls, List.map_append, List.map_map, List.map_map, Array.append_assoc]
  simp [Function.comp_def]

/-- The classes as the writes find them. -/
theorem retunedState_survey (c : EventClass) :
    retunedState { writer := (l.survey w t o).writer, metrics := (l.survey w t o).metrics } c =
      l.surveyedState w t o c := by
  have hsurvey := surveyed_all l w t o
  simp only [retunedState, PeriodWriter.classState, surveyedState]
  rw [hsurvey.metrics c (EventClass.mem_all c), hsurvey.known, hsurvey.source]
  simp

theorem classState_adapt (c : EventClass) :
    (l.adapt w t o).classState c =
      retunedState ((l.finalProjections w t o).2.foldl retuneClass
        { writer := (l.survey w t o).writer, metrics := (l.survey w t o).metrics }) c := by
  rw [adapt_eq (l.enforceBudget_proposals w t o)]
  rfl

/-- A class to which no write is granted keeps what the reads have found. -/
theorem classState_adapt_of_not_written {c : EventClass}
    (h : l.reads w c = false ∨ w.source.refuses c .setPeriod = true) :
    (l.adapt w t o).classState c = l.surveyedState w t o c := by
  rw [classState_adapt, retunedState_foldl_of_not_written, retunedState_survey]
  rcases h with hread | hrefused
  · left
    rw [map_cls_finalProjections]
    simp [hread]
  · right
    show (l.survey w t o).writer.source.refuses c .setPeriod = true
    rw [(surveyed_all l w t o).source]
    exact hrefused

/-! ## Counting the classes -/

/-- A cycle accounts for every adaptive class once. -/
theorem adapted_add_failed :
    (l.adapt w t o).cycle.adapted + (l.adapt w t o).cycle.failed = l.adaptive.dedup.length := by
  have hsurvey := surveyed_all l w t o
  have hwrites := adapted_add_failed_foldl
    { writer := (l.survey w t o).writer, metrics := (l.survey w t o).metrics }
    (l.finalProjections w t o).2
  have hlength : (l.finalProjections w t o).2.length = EventClass.all.countP (l.reads w) := by
    have hcls := congrArg List.length (l.map_cls_finalProjections w t o)
    rw [List.length_map] at hcls
    rw [hcls, List.countP_eq_length_filter]
  -- each adaptive class is either read or not
  have hsplit (cs : List EventClass) :
      cs.countP (l.reads w) +
          cs.countP (fun c => decide (c ∈ l.adaptive) && w.source.refuses c .period) =
        cs.countP (· ∈ l.adaptive) := by
    induction cs with
    | nil => rfl
    | cons c cs ih =>
        rw [List.countP_cons, List.countP_cons, List.countP_cons, ← ih, reads]
        by_cases hc : c ∈ l.adaptive
        · cases w.source.refuses c .period with
          | true => simp [hc]; omega
          | false => simp [hc]; omega
        · simp [hc]
  have hdistinct : EventClass.all.countP (· ∈ l.adaptive) = l.adaptive.dedup.length := by
    rw [List.countP_eq_length_filter]
    refine ((List.perm_ext_iff_of_nodup (EventClass.nodup_all.filter _) l.adaptive.nodup_dedup).2
      fun c => ?_).length_eq
    simp
  rw [adapt_eq (l.enforceBudget_proposals w t o), ← hdistinct, ← hsplit, ← hlength,
    ← hsurvey.failed]
  change (List.foldl retuneClass _ _).adapted + (_ + (List.foldl retuneClass _ _).failed) = _
  simp only at hwrites ⊢
  omega

/-! ## Two cycles whose writes are answered differently -/

section OtherWrites

variable {refuses : EventClass → SourceOp → Bool}
  (hother : ∀ c op, op ≠ .setPeriod → refuses c op = w.source.refuses c op)

include hother

theorem reads_withRefusals (c : EventClass) :
    l.reads (w.withRefusals refuses) c = l.reads w c := by
  have hread : refuses c .period = w.source.refuses c .period := hother c .period (by simp)
  show (decide (c ∈ l.adaptive) && !refuses c .period) = _
  rw [hread]
  rfl

theorem surveyedState_withRefusals (c : EventClass) :
    l.surveyedState (w.withRefusals refuses) t o c = l.surveyedState w t o c := by
  have hread : refuses c .period = w.source.refuses c .period := hother c .period (by simp)
  have hmetrics : l.surveyMetrics (w.withRefusals refuses) t o c = l.surveyMetrics w t o c := by
    simp only [surveyMetrics, PeriodWriter.withRefusals, hread]
    rfl
  simp only [surveyedState, hmetrics, l.reads_withRefusals w hother]
  rfl

/-- The periods are final before a write is answered. -/
theorem finalProjections_withRefusals :
    l.finalProjections (w.withRefusals refuses) t o = l.finalProjections w t o := by
  have hreads : l.reads (w.withRefusals refuses) = l.reads w :=
    funext fun c => l.reads_withRefusals w hother c
  rw [finalProjections, finalProjections, hreads]
  rfl

theorem cycleCalls_withRefusals :
    l.cycleCalls (w.withRefusals refuses) t o = l.cycleCalls w t o := by
  rw [cycleCalls, cycleCalls, l.finalProjections_withRefusals w t o hother]

/-- The answer to one class's write does not concern another class. -/
theorem classState_adapt_withRefusals {c : EventClass}
    (hc : l.reads w c = true → refuses c .setPeriod = w.source.refuses c .setPeriod) :
    (l.adapt (w.withRefusals refuses) t o).classState c = (l.adapt w t o).classState c := by
  cases hread : l.reads w c with
  | false =>
      rw [l.classState_adapt_of_not_written w t o (.inl hread),
        l.classState_adapt_of_not_written _ t o
          (.inl ((l.reads_withRefusals w hother c).trans hread)),
        l.surveyedState_withRefusals w t o hother]
  | true =>
      -- both runs write the same list, from states in which the class is the same
      rw [classState_adapt, classState_adapt, l.finalProjections_withRefusals w t o hother]
      refine retunedState_foldl_congr ?_ ?_ _
      · rw [retunedState_survey, retunedState_survey, l.surveyedState_withRefusals w t o hother]
      · show (l.survey (w.withRefusals refuses) t o).writer.source.refuses c .setPeriod =
          (l.survey w t o).writer.source.refuses c .setPeriod
        rw [(surveyed_all l (w.withRefusals refuses) t o).source, (surveyed_all l w t o).source]
        exact hc hread

end OtherWrites

end Cycle

/-! ## Main result -/

/-- A cycle accounts for every adaptive class once, and a refusal concerns its own class alone. A
class that cannot be read is not written and keeps its periods; one that cannot be written is asked
for in vain and keeps the period that was read. If other writes are refused, the cycle still makes
the same calls with the same periods and comes to the same budget outcome, and it does the same to
each class whose own write is answered as before. -/
theorem adapt_under_refusals {ι : Type} [DecidableEq ι] (l : AdaptiveLoop) (w : PeriodWriter)
    (t : Tally ι) (o : ScoreOptions) :
    let out := l.adapt w t o
    out.cycle.adapted + out.cycle.failed = l.adaptive.dedup.length ∧
    ∃ es : List LoggedCall, out.writer.source.calls = w.source.calls ++ es.toArray ∧
      (∀ c, w.source.refuses c .period = true →
        (∀ e ∈ es, ∀ p, e.call ≠ .setPeriod c p) ∧
        out.writer.source.periods.get c = w.source.periods.get c ∧
        out.writer.known.get c = w.known.get c) ∧
      (∀ c ∈ l.adaptive, w.source.refuses c .period = false →
        w.source.refuses c .setPeriod = true →
        (∃ p, { call := .setPeriod c p, granted := false } ∈ es) ∧
        out.writer.source.periods.get c = w.source.periods.get c ∧
        out.writer.known.get c = w.source.periods.get c ∧
        (out.metrics.get c).currentPeriod = w.source.periods.get c) ∧
      ∀ refuses : EventClass → SourceOp → Bool,
        (∀ c op, op ≠ .setPeriod → refuses c op = w.source.refuses c op) →
        let other := l.adapt (w.withRefusals refuses) t o
        (∃ es' : List LoggedCall, other.writer.source.calls = w.source.calls ++ es'.toArray ∧
          es'.map LoggedCall.call = es.map LoggedCall.call) ∧
        other.cycle.budget = out.cycle.budget ∧
        ∀ c, refuses c .setPeriod = w.source.refuses c .setPeriod →
          other.metrics.get c = out.metrics.get c ∧
          other.writer.source.periods.get c = out.writer.source.periods.get c ∧
          other.writer.known.get c = out.writer.known.get c := by
  intro out
  refine ⟨l.adapted_add_failed w t o, (l.cycleCalls w t o).map w.source.entry,
    l.calls_adapt w t o, ?_, ?_, ?_⟩
  · intro c hrefused
    have hread : l.reads w c = false := by simp [reads, hrefused]
    obtain ⟨-, hperiod, hknown⟩ :=
      Outcome.of_classState (l.classState_adapt_of_not_written w t o (.inl hread))
    rw [surveyedState, if_neg (by simp [hread])] at hknown
    refine ⟨?_, hperiod, hknown⟩
    intro e he p hcall
    obtain ⟨call, hmem, rfl⟩ := List.mem_map.1 he
    have hcall' : call = .setPeriod c p := hcall
    have hwritten := l.reads_of_mem_cycleCalls w t o (hcall' ▸ hmem)
    rw [hread] at hwritten
    cases hwritten
  · intro c hc hgranted hrefused
    have hread : l.reads w c = true := by simp [reads, hc, hgranted]
    obtain ⟨hmetrics, hperiod, hknown⟩ :=
      Outcome.of_classState (l.classState_adapt_of_not_written w t o (.inr hrefused))
    rw [surveyedState, if_pos hread] at hknown
    obtain ⟨p, hp⟩ := l.exists_mem_cycleCalls w t o hread
    refine ⟨⟨p, List.mem_map.2 ⟨_, hp, ?_⟩⟩, hperiod, hknown, ?_⟩
    · simp [EventSource.entry, SourceCall.cls, SourceCall.op, hrefused]
    · rw [hmetrics]
      simp [surveyedState, surveyMetrics, hc, hgranted]
  · intro refuses hother other
    refine ⟨⟨_, l.calls_adapt (w.withRefusals refuses) t o, ?_⟩, ?_, ?_⟩
    · rw [l.cycleCalls_withRefusals w t o hother, List.map_map, List.map_map]
      rfl
    · rw [budget_adapt, budget_adapt, l.finalProjections_withRefusals w t o hother]
    · intro c hc
      exact Outcome.of_classState_eq (l.classState_adapt_withRefusals w t o hother fun _ => hc)

/-! ## Two classes that fail -/

/-- Stores cannot be read and reads of fast memory cannot be written; nothing is known yet. -/
def deafWriter : PeriodWriter where
  source :=
    { cpus := [0]
      ringSize := 4096
      refuses := fun c op => (c = .memWrite && op = .period) || (c = .dramRead && op = .setPeriod)
      periods := .replicate 5000 }
  known := .replicate 0

/-- The same where it is reads of slow memory that cannot be written. -/
def deafWriter' : PeriodWriter :=
  deafWriter.withRefusals fun c op =>
    (c = .memWrite && op = .period) || (c = .nvmRead && op = .setPeriod)

/-- Four classes are adaptive, and one of them is listed twice. -/
def repeatedLoop : AdaptiveLoop :=
  { options := {}, adaptive := [.l3Hit, .dramRead, .nvmRead, .memWrite, .l3Hit] }

/-- All classes took more samples than the budget allows. -/
def crowdedTally : Tally UInt64 := { Tally.empty 4 with samples := .replicate 80000 }

/-- The hits of the third level get the same in both runs, although all classes share a budget. -/
theorem adapt_under_refusals_deafWriter :
    (repeatedLoop.adapt deafWriter crowdedTally {}).cycle.adapted +
        (repeatedLoop.adapt deafWriter crowdedTally {}).cycle.failed = 4 ∧
      (repeatedLoop.adapt deafWriter crowdedTally {}).writer.known.get .memWrite = 0 ∧
      (repeatedLoop.adapt deafWriter crowdedTally {}).writer.known.get .dramRead = 5000 ∧
      (repeatedLoop.adapt deafWriter' crowdedTally {}).metrics.get .l3Hit =
        (repeatedLoop.adapt deafWriter crowdedTally {}).metrics.get .l3Hit := by
  obtain ⟨hcount, es, -, hunread, hunwritten, hother⟩ :=
    adapt_under_refusals repeatedLoop deafWriter crowdedTally {}
  obtain ⟨-, -, hmemWrite⟩ := hunread .memWrite (by decide)
  obtain ⟨-, -, hdramRead, -⟩ := hunwritten .dramRead (by decide) (by decide) (by decide)
  obtain ⟨-, -, hclasses⟩ := hother
    (fun c op => (c = .memWrite && op = .period) || (c = .nvmRead && op = .setPeriod))
    (fun c op hop => by simp [deafWriter, hop])
  exact ⟨hcount.trans (by decide), hmemWrite, hdramRead, (hclasses .l3Hit (by decide)).1⟩

end AdaptiveLoop

end AccessSampling
