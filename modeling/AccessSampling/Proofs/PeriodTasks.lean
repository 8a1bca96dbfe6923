import AccessSampling.AdaptiveLoop
import AccessSampling.QuotaLoop

/-!
# Work on periods, one call at a time

The adaptive loop and the quota loop reach the source through one writer, and both may be in the
middle of their work at the same time. Here a cycle and a push of coarse periods are given as tasks:
a task is the next call to the writer and, for every answer, the task that is left. Run to its end
without interruption, the task of a cycle is the cycle and the task of a push is the push.
-/

namespace AccessSampling

/-- Work on periods that is left to do. -/
inductive PeriodTask (α : Type) where
  | done (a : α)
  /-- Looks up the period that is known of a class. -/
  | known (c : EventClass) (next : Nat → PeriodTask α)
  | get (c : EventClass) (next : Except Refusal Nat → PeriodTask α)
  | set (c : EventClass) (period : Nat) (next : Except Refusal Unit → PeriodTask α)

namespace PeriodTask

variable {α β σ : Type}

/-- One task after another. -/
def bind : PeriodTask α → (α → PeriodTask β) → PeriodTask β
  | done a, f => f a
  | known c next, f => known c fun p => (next p).bind f
  | get c next, f => get c fun answer => (next answer).bind f
  | set c p next, f => set c p fun answer => (next answer).bind f

instance : Monad PeriodTask where
  pure := done
  bind := bind

/-- The task after its next call. -/
def step : PeriodTask α → PeriodWriter → PeriodTask α × PeriodWriter
  | done a, w => (done a, w)
  | known c next, w => (next (w.known.get c), w)
  | get c next, w => (next (w.get c).1, (w.get c).2)
  | set c p next, w => (next (w.set c p).1, (w.set c p).2)

/-- The task without interruption. -/
def run : PeriodTask α → PeriodWriter → α × PeriodWriter
  | done a, w => (a, w)
  | known c next, w => (next (w.known.get c)).run w
  | get c next, w => (next (w.get c).1).run (w.get c).2
  | set c p next, w => (next (w.set c p).1).run (w.set c p).2

theorem run_bind (t : PeriodTask α) (f : α → PeriodTask β) (w : PeriodWriter) :
    (t >>= f).run w = (f (t.run w).1).run (t.run w).2 := by
  induction t generalizing w with
  | done a => rfl
  | known c next ih => exact ih (w.known.get c) w
  | get c next ih => exact ih (w.get c).1 (w.get c).2
  | set c p next ih => exact ih (w.set c p).1 (w.set c p).2

/-- A task for every element of a list, run without interruption, is a fold over the list. -/
theorem run_foldlM {γ : Type} {f : α → γ → PeriodTask α} {g : σ → γ → σ} {out : σ → α}
    {writer : σ → PeriodWriter}
    (h : ∀ s x, (f (out s) x).run (writer s) = (out (g s x), writer (g s x))) (xs : List γ)
    (s : σ) :
    (xs.foldlM f (out s)).run (writer s) = (out (xs.foldl g s), writer (xs.foldl g s)) := by
  induction xs generalizing s with
  | nil => rfl
  | cons x xs ih => rw [List.foldlM_cons, run_bind, h, ih, List.foldl_cons]

/-! ## Work among other work -/

/-- Every call of the task keeps a property of the writer, whatever else that keeps it happens
between the calls, and what the task comes to meets a condition. -/
def Safe (P : PeriodWriter → Prop) (post : α → Prop) : PeriodTask α → Prop
  | done a => post a
  | known c next => ∀ w, P w → (next (w.known.get c)).Safe P post
  | get c next => ∀ w, P w → P (w.get c).2 ∧ (next (w.get c).1).Safe P post
  | set c p next => ∀ w, P w → P (w.set c p).2 ∧ (next (w.set c p).1).Safe P post

section Safe

variable {P : PeriodWriter → Prop} {post : α → Prop}

theorem Safe.bind {goal : β → Prop} {t : PeriodTask α} {f : α → PeriodTask β}
    (h : t.Safe P post) (hf : ∀ a, post a → (f a).Safe P goal) : (t >>= f).Safe P goal := by
  induction t with
  | done a => exact hf a h
  | known c next ih => exact fun w hw => ih _ (h w hw)
  | get c next ih => exact fun w hw => ⟨(h w hw).1, ih _ (h w hw).2⟩
  | set c p next ih => exact fun w hw => ⟨(h w hw).1, ih _ (h w hw).2⟩

theorem safe_foldlM {γ : Type} {f : α → γ → PeriodTask α} {xs : List γ} {a : α} (ha : post a)
    (hf : ∀ a, ∀ x ∈ xs, post a → (f a x).Safe P post) : (xs.foldlM f a).Safe P post := by
  induction xs generalizing a with
  | nil => exact ha
  | cons x xs ih =>
      rw [List.foldlM_cons]
      exact (hf a x List.mem_cons_self ha).bind fun b hb =>
        ih hb fun b y hy => hf b y (List.mem_cons_of_mem _ hy)

/-- What every call keeps, every task keeps. -/
theorem safe_of_calls (hget : ∀ w c, P w → P (w.get c).2) (hset : ∀ w c p, P w → P (w.set c p).2)
    (t : PeriodTask α) : t.Safe P fun _ => True := by
  induction t with
  | done a => trivial
  | known c next ih => exact fun w hw => ih _
  | get c next ih => exact fun w hw => ⟨hget w c hw, ih _⟩
  | set c p next ih => exact fun w hw => ⟨hset w c p hw, ih _⟩

theorem Safe.step {t : PeriodTask α} (h : t.Safe P post) {w : PeriodWriter} (hw : P w) :
    (t.step w).1.Safe P post ∧ P (t.step w).2 := by
  cases t with
  | done a => exact ⟨h, hw⟩
  | known c next => exact ⟨h w hw, hw⟩
  | get c next => exact (h w hw).symm
  | set c p next => exact (h w hw).symm

theorem Safe.run {t : PeriodTask α} (h : t.Safe P post) {w : PeriodWriter} (hw : P w) :
    post (t.run w).1 ∧ P (t.run w).2 := by
  induction t generalizing w with
  | done a => exact ⟨h, hw⟩
  | known c next ih => exact ih _ (h w hw) hw
  | get c next ih => exact ih _ (h w hw).2 (h w hw).1
  | set c p next ih => exact ih _ (h w hw).2 (h w hw).1

end Safe

end PeriodTask

/-! ## An adaptive cycle -/

/-- What the first half of a cycle has found so far. -/
structure Findings where
  metrics : PerClass Metrics := .replicate {}
  projections : List Projection := []
  failed : Nat := 0

/-- What the second half of a cycle has done so far. -/
structure Rewrites where
  metrics : PerClass Metrics
  adapted : Nat := 0
  failed : Nat := 0

/-- What a cycle comes to. -/
structure CycleResult where
  cycle : Cycle
  metrics : PerClass Metrics
  /-- The sample counters as the cycle saw them. -/
  samples : PerClass Nat

def Survey.findings (s : Survey) : Findings :=
  { metrics := s.metrics, projections := s.projections, failed := s.failed }

def Retuning.rewrites (r : Retuning) : Rewrites :=
  { metrics := r.metrics, adapted := r.adapted, failed := r.failed }

namespace AdaptiveLoop

variable {ι : Type} [DecidableEq ι]

/-- Scores a class and proposes its next period. -/
def surveyTask (l : AdaptiveLoop) (seen : EventClass → Tally ι) (o : ScoreOptions) (s : Findings)
    (c : EventClass) : PeriodTask Findings :=
  .known c fun known =>
    let m := { (seen c).metrics o c with currentPeriod := known }
    if c ∈ l.adaptive then
      let m := { m with targetPeriod := l.options.target m.composite }
      .get c fun
        | .error _ => .done { s with metrics := s.metrics.set c m, failed := s.failed + 1 }
        | .ok current =>
          let smoothed := l.options.ema.smooth current m.targetPeriod
          let recent := (seen c).samples.get c - l.lastSamples.get c
          .done
            { s with
              metrics :=
                s.metrics.set c { m with currentPeriod := current, smoothedPeriod := smoothed }
              projections := s.projections ++
                [{ cls := c, events := recent * current, period := smoothed }] }
    else .done { s with metrics := s.metrics.set c m }

/-- Writes a period. -/
def retuneTask (r : Rewrites) (p : Projection) : PeriodTask Rewrites :=
  .set p.cls p.period fun
    | .error _ => .done { r with failed := r.failed + 1 }
    | .ok () =>
      .done
        { r with
          metrics := r.metrics.modify p.cls fun m => { m with currentPeriod := p.period }
          adapted := r.adapted + 1 }

/-- A cycle. The samples come in while it is at work, so each class may be judged by a tally of its
own. -/
def cycleTask (l : AdaptiveLoop) (seen : EventClass → Tally ι) (o : ScoreOptions) :
    PeriodTask CycleResult := do
  let s ← EventClass.all.foldlM (l.surveyTask seen o) {}
  let (budget, ps) := enforceBudget l.options.budget l.options.max s.projections
  let r ← ps.foldlM retuneTask { metrics := s.metrics }
  return {
    cycle := { adapted := r.adapted, failed := s.failed + r.failed, budget }
    metrics := r.metrics
    samples := .ofFn fun c => (seen c).samples.get c }

theorem run_surveyTask (l : AdaptiveLoop) (t : Tally ι) (o : ScoreOptions) (s : Survey)
    (c : EventClass) :
    (l.surveyTask (fun _ => t) o s.findings c).run s.writer =
      ((l.surveyClass t o s c).findings, (l.surveyClass t o s c).writer) := by
  by_cases hc : c ∈ l.adaptive
  · rcases hget : s.writer.get c with ⟨answer, writer⟩
    cases answer with
    | error r => simp [surveyTask, surveyClass, PeriodTask.run, hc, hget, Survey.findings]
    | ok p => simp [surveyTask, surveyClass, PeriodTask.run, hc, hget, Survey.findings]
  · simp [surveyTask, surveyClass, PeriodTask.run, hc, Survey.findings]

theorem run_retuneTask (r : Retuning) (p : Projection) :
    (retuneTask r.rewrites p).run r.writer =
      ((retuneClass r p).rewrites, (retuneClass r p).writer) := by
  rcases hset : r.writer.set p.cls p.period with ⟨answer, writer⟩
  cases answer with
  | error e => simp [retuneTask, retuneClass, PeriodTask.run, hset, Retuning.rewrites]
  | ok u => simp [retuneTask, retuneClass, PeriodTask.run, hset, Retuning.rewrites]

/-- A cycle that nothing interrupts. -/
theorem run_cycleTask (l : AdaptiveLoop) (w : PeriodWriter) (t : Tally ι) (o : ScoreOptions) :
    (l.cycleTask (fun _ => t) o).run w =
      ({ cycle := (l.adapt w t o).cycle
         metrics := (l.adapt w t o).metrics
         samples := t.samples }, (l.adapt w t o).writer) := by
  have hsurvey : (EventClass.all.foldlM (l.surveyTask (fun _ => t) o) {}).run w =
      ((l.survey w t o).findings, (l.survey w t o).writer) :=
    PeriodTask.run_foldlM (l.run_surveyTask t o) EventClass.all { writer := w }
  have hsamples : PerClass.ofFn (fun c => t.samples.get c) = t.samples :=
    PerClass.ext_get fun c => PerClass.get_ofFn ..
  rw [cycleTask, PeriodTask.run_bind, hsurvey, hsamples]
  rcases hbudget : enforceBudget l.options.budget l.options.max (l.survey w t o).projections with
    ⟨budget, ps⟩
  have hretune : (ps.foldlM retuneTask { metrics := (l.survey w t o).metrics }).run
      (l.survey w t o).writer =
        ((retune (l.survey w t o).writer (l.survey w t o).metrics ps).rewrites,
          (retune (l.survey w t o).writer (l.survey w t o).metrics ps).writer) :=
    PeriodTask.run_foldlM run_retuneTask ps
      { writer := (l.survey w t o).writer, metrics := (l.survey w t o).metrics }
  simp only [Survey.findings, hbudget]
  rw [PeriodTask.run_bind, hretune, adapt, hbudget]
  rfl

end AdaptiveLoop

/-! ## A push of coarse periods -/

namespace QuotaLoop

/-- Writes the coarse period of a class, if it has one. -/
def pushClassTask (q : QuotaLoop) (o : QuotaOptions) (failed : Nat) (c : EventClass) :
    PeriodTask Nat :=
  match o.period? c.tier q.index with
  | none => .done failed
  | some p => .set c p fun
    | .error _ => .done (failed + 1)
    | .ok () => .done failed

def pushTask (q : QuotaLoop) (cs : List EventClass) (o : QuotaOptions) : PeriodTask Nat :=
  cs.foldlM (q.pushClassTask o) 0

theorem run_pushClassTask (q : QuotaLoop) (o : QuotaOptions) (s : Nat × PeriodWriter)
    (c : EventClass) :
    (q.pushClassTask o s.1 c).run s.2 = ((q.applyClass o s c).1, (q.applyClass o s c).2) := by
  cases hperiod : o.period? c.tier q.index with
  | none => simp [pushClassTask, applyClass, PeriodTask.run, hperiod]
  | some p =>
      rcases hset : s.2.set c p with ⟨answer, writer⟩
      cases answer with
      | error e => simp [pushClassTask, applyClass, PeriodTask.run, hperiod, hset]
      | ok u => simp [pushClassTask, applyClass, PeriodTask.run, hperiod, hset]

/-- A push that nothing interrupts. -/
theorem run_pushTask (q : QuotaLoop) (w : PeriodWriter) (cs : List EventClass) (o : QuotaOptions) :
    (q.pushTask cs o).run w = q.apply w cs o :=
  PeriodTask.run_foldlM (q.run_pushClassTask o) cs (0, w)

end QuotaLoop

/-! ## Jobs -/

/-- The two kinds of work on periods. -/
inductive PeriodJob (ι : Type) where
  | cycle (l : AdaptiveLoop) (seen : EventClass → Tally ι) (o : ScoreOptions)
  | push (q : QuotaLoop) (cs : List EventClass) (o : QuotaOptions)

/-- What work on periods comes to. -/
inductive JobResult where
  | cycle (r : CycleResult)
  /-- The number of refused writes. -/
  | push (failed : Nat)

namespace PeriodJob

variable {ι : Type} [DecidableEq ι]

def task : PeriodJob ι → PeriodTask JobResult
  | cycle l seen o => do return .cycle (← l.cycleTask seen o)
  | push q cs o => do return .push (← q.pushTask cs o)

variable {P : PeriodWriter → Prop}

theorem safe_task_cycle {l : AdaptiveLoop} {seen : EventClass → Tally ι} {o : ScoreOptions}
    (h : (l.cycleTask seen o).Safe P fun _ => True) :
    (cycle l seen o).task.Safe P fun _ => True :=
  h.bind fun _ _ => trivial

theorem safe_task_push {q : QuotaLoop} {cs : List EventClass} {o : QuotaOptions}
    (h : (q.pushTask cs o).Safe P fun _ => True) :
    (push (ι := ι) q cs o).task.Safe P fun _ => True :=
  h.bind fun _ _ => trivial

end PeriodJob

end AccessSampling
