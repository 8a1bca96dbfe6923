import AccessSampling.Proofs.Checked.Periods
import AccessSampling.Proofs.Checked.Scores
import AccessSampling.Proofs.PeriodTasks

/-!
# Work on periods with checked operations

A checked task may come to a fault between any two of its calls. With valid options none does,
whatever the calls answer and whatever samples come in meanwhile: a checked cycle and a checked push
are the cycle and the push.
-/

namespace AccessSampling.Checked

/-- Work on periods that may come to a fault. -/
abbrev Task (α : Type) := ExceptT Fault PeriodTask α

namespace Task

variable {α β γ : Type}

/-- Work that comes to no fault. -/
def sure (t : PeriodTask α) : Task α := ExceptT.lift t

/-- The writer has a lock for each class, which is looked up by the place of the class. -/
def lock (c : EventClass) : Except Fault EventClass := elem EventClass.all.toArray c.index

def known (c : EventClass) : Task Nat := do
  let c ← lock c
  sure (.known c .done)

def get (c : EventClass) : Task (Except Refusal Nat) := do
  let c ← lock c
  sure (.get c .done)

def set (c : EventClass) (period : Nat) : Task (Except Refusal Unit) := do
  let c ← lock c
  sure (.set c period .done)

/-- What a task may come to, whatever its calls answer. -/
def Ends (post : α → Prop) : PeriodTask α → Prop
  | .done a => post a
  | .known _ next => ∀ p, Ends post (next p)
  | .get _ next => ∀ answer, Ends post (next answer)
  | .set _ _ next => ∀ answer, Ends post (next answer)

@[simp] theorem lock_eq (c : EventClass) : lock c = .ok c := by
  cases c with
  | _ => rfl

theorem ok_bind (a : α) (f : α → Task β) :
    ((liftM (Except.ok a : Except Fault α) : Task α) >>= f) = f a := rfl

section Calls

variable (c : EventClass)

theorem known_bind (f : Nat → Task β) :
    (known c >>= f) = (PeriodTask.known c f : PeriodTask (Except Fault β)) := by
  rw [known, lock_eq]
  rfl

theorem get_bind (f : Except Refusal Nat → Task β) :
    (get c >>= f) = (PeriodTask.get c f : PeriodTask (Except Fault β)) := by
  rw [get, lock_eq]
  rfl

theorem set_bind (p : Nat) (f : Except Refusal Unit → Task β) :
    (set c p >>= f) = (PeriodTask.set c p f : PeriodTask (Except Fault β)) := by
  rw [set, lock_eq]
  rfl

end Calls

/-- If the rest of some work comes to no fault after whatever its first part may come to, the whole
comes to none. -/
theorem sure_bind {post : α → Prop} {t : PeriodTask α} (h : Ends post t) {f : α → Task β}
    {g : α → PeriodTask β} (hfg : ∀ a, post a → f a = sure (g a)) :
    (sure t >>= f) = sure (t >>= g) := by
  induction t with
  | done a => exact hfg a h
  | known c next ih => exact congrArg (PeriodTask.known c) (funext fun p => ih p (h p))
  | get c next ih => exact congrArg (PeriodTask.get c) (funext fun answer => ih answer (h answer))
  | set c p next ih =>
      exact congrArg (PeriodTask.set c p) (funext fun answer => ih answer (h answer))

theorem ends_true (t : PeriodTask α) : Ends (fun _ => True) t := by
  induction t with
  | done a => trivial
  | known c next ih => exact ih
  | get c next ih => exact ih
  | set c p next ih => exact ih

theorem foldlM_sure {f : α → γ → Task α} {g : α → γ → PeriodTask α}
    (h : ∀ a x, f a x = sure (g a x)) (xs : List γ) (a : α) :
    xs.foldlM f a = sure (xs.foldlM g a) := by
  induction xs generalizing a with
  | nil => rfl
  | cons x xs ih =>
      rw [List.foldlM_cons, List.foldlM_cons, h]
      exact sure_bind (ends_true _) fun b _ => ih b

theorem run_sure (t : PeriodTask α) (w : PeriodWriter) :
    (sure t).run.run w = (.ok (t.run w).1, (t.run w).2) := by
  induction t generalizing w with
  | done a => rfl
  | known c next ih => exact ih (w.known.get c) w
  | get c next ih => exact ih (w.get c).1 (w.get c).2
  | set c p next ih => exact ih (w.set c p).1 (w.set c p).2

end Task

/-! ## An adaptive cycle -/

section Cycle

variable {ι : Type} [DecidableEq ι]

def surveyTask (l : AdaptiveLoop) (seen : EventClass → Tally ι) (o : ScoreOptions) (s : Findings)
    (c : EventClass) : Task Findings := do
  let known ← Task.known c
  let m ← metrics (seen c) o c
  let m := { m with currentPeriod := known }
  if c ∈ l.adaptive then
    let target ← target l.options m.composite
    let m := { m with targetPeriod := target }
    match ← Task.get c with
    | .error _ =>
      let metrics ← putEntry s.metrics c m
      return { s with metrics, failed := s.failed + 1 }
    | .ok current =>
      let smoothed ← smooth l.options.ema current m.targetPeriod
      let count ← entry (seen c).samples c
      let last ← entry l.lastSamples c
      let metrics ← putEntry s.metrics c
        { m with currentPeriod := current, smoothedPeriod := smoothed }
      -- the difference of the counters is a saturating one
      let projections ← push s.projections
        { cls := c, events := (count - last) * current, period := smoothed }
      return { s with metrics, projections }
  else
    let metrics ← putEntry s.metrics c m
    return { s with metrics }

def retuneTask (r : Rewrites) (p : Projection) : Task Rewrites := do
  match ← Task.set p.cls p.period with
  | .error _ => return { r with failed := r.failed + 1 }
  | .ok () =>
    let m ← entry r.metrics p.cls
    let metrics ← putEntry r.metrics p.cls { m with currentPeriod := p.period }
    return { r with metrics, adapted := r.adapted + 1 }

def cycleTask (l : AdaptiveLoop) (seen : EventClass → Tally ι) (o : ScoreOptions) :
    Task CycleResult := do
  let s ← EventClass.all.foldlM (surveyTask l seen o) {}
  let (budget, ps) ← enforceBudget l.options.budget l.options.max s.projections
  let r ← ps.foldlM retuneTask { metrics := s.metrics }
  let samples ← tabulate fun c => entry (seen c).samples c
  return {
    cycle := { adapted := r.adapted, failed := s.failed + r.failed, budget }
    metrics := r.metrics
    samples }

/-- What the period loop needs of its options. -/
structure Tunable (o : PeriodOptions) : Prop where
  min_le_max : o.min ≤ o.max
  den_pos : 0 < o.ema.den
  num_le_den : o.ema.num ≤ o.ema.den

variable {l : AdaptiveLoop} (hl : Tunable l.options) (seen : EventClass → Tally ι)
  (o : ScoreOptions)

include hl in
theorem surveyTask_eq {s : Findings} (hroom : s.projections.length < EventClass.all.length)
    (c : EventClass) : surveyTask l seen o s c = Task.sure (l.surveyTask seen o s c) := by
  rw [surveyTask, Task.known_bind, AdaptiveLoop.surveyTask]
  refine congrArg (PeriodTask.known c) (funext fun known => ?_)
  rw [metrics_eq, Task.ok_bind]
  dsimp only
  split
  · rw [target_eq hl.min_le_max, Task.ok_bind, Task.get_bind]
    refine congrArg (PeriodTask.get c) (funext fun answer => ?_)
    cases answer with
    | error e =>
        rw [putEntry_eq]
        rfl
    | ok current =>
        simp only [smooth_eq hl.den_pos hl.num_le_den, entry_eq, putEntry_eq, push_of_lt hroom,
          Task.ok_bind]
        rfl
  · rw [putEntry_eq]
    rfl

/-- A class has at most one proposal. -/
theorem surveyTask_ends (s : Findings) (c : EventClass) :
    Task.Ends (fun s' => s'.projections.length ≤ s.projections.length + 1)
      (l.surveyTask seen o s c) := by
  intro known
  dsimp only
  split
  · intro answer
    cases answer with
    | error e => exact Nat.le_succ _
    | ok current => exact Nat.le_of_eq List.length_append
  · exact Nat.le_succ _

include hl in
theorem foldlM_surveyTask_eq {cs : List EventClass} {s : Findings}
    (hroom : s.projections.length + cs.length ≤ EventClass.all.length) :
    cs.foldlM (surveyTask l seen o) s = Task.sure (cs.foldlM (l.surveyTask seen o) s) := by
  induction cs generalizing s with
  | nil => rfl
  | cons c cs ih =>
      rw [List.length_cons] at hroom
      rw [List.foldlM_cons, List.foldlM_cons, surveyTask_eq hl seen o (by omega)]
      exact Task.sure_bind (surveyTask_ends seen o s c) fun s' hs' => ih (by omega)

theorem retuneTask_eq (r : Rewrites) (p : Projection) :
    retuneTask r p = Task.sure (AdaptiveLoop.retuneTask r p) := by
  rw [retuneTask, Task.set_bind]
  refine congrArg (PeriodTask.set p.cls p.period) (funext fun answer => ?_)
  cases answer with
  | error e => rfl
  | ok done =>
      simp only [entry_eq, putEntry_eq, Task.ok_bind]
      rfl

include hl in
theorem cycleTask_eq : cycleTask l seen o = Task.sure (l.cycleTask seen o) := by
  rw [cycleTask, foldlM_surveyTask_eq hl seen o (Nat.le_of_eq (Nat.zero_add _))]
  refine Task.sure_bind (Task.ends_true _) fun s _ => ?_
  rw [enforceBudget_eq, Task.ok_bind]
  rcases AccessSampling.enforceBudget l.options.budget l.options.max s.projections with ⟨budget, ps⟩
  dsimp only
  rw [Task.foldlM_sure retuneTask_eq]
  refine Task.sure_bind (Task.ends_true _) fun r _ => ?_
  rw [tabulate_eq fun c => entry_eq (seen c).samples c]
  rfl

end Cycle

/-! ## A push of coarse periods -/

section Push

def pushClassTask (q : QuotaLoop) (o : QuotaOptions) (failed : Nat) (c : EventClass) :
    Task Nat := do
  match ← coarsePeriod? o c.tier q.index with
  | none => return failed
  | some p =>
    match ← Task.set c p with
    | .error _ => return failed + 1
    | .ok () => return failed

def pushTask (q : QuotaLoop) (cs : List EventClass) (o : QuotaOptions) : Task Nat :=
  cs.foldlM (pushClassTask q o) 0

variable {o : Options} (ho : o.Valid) {q : QuotaLoop} (hq : q.index < o.quota.steps)

include ho hq in
theorem pushClassTask_eq (failed : Nat) (c : EventClass) :
    pushClassTask q o.quota failed c = Task.sure (q.pushClassTask o.quota failed c) := by
  rw [pushClassTask, coarsePeriod?_eq ho hq, Task.ok_bind, QuotaLoop.pushClassTask]
  cases o.quota.period? c.tier q.index with
  | none => rfl
  | some p =>
      dsimp only
      rw [Task.set_bind]
      refine congrArg (PeriodTask.set c p) (funext fun answer => ?_)
      cases answer with
      | error | ok => rfl

include ho hq in
theorem pushTask_eq (cs : List EventClass) :
    pushTask q cs o.quota = Task.sure (q.pushTask cs o.quota) :=
  Task.foldlM_sure (pushClassTask_eq ho hq) cs 0

end Push

/-! ## Jobs -/

section Job

variable {ι : Type} [DecidableEq ι]

def task : PeriodJob ι → Task JobResult
  | .cycle l seen o => do return .cycle (← cycleTask l seen o)
  | .push q cs o => do return .push (← pushTask q cs o)

theorem task_cycle_eq {l : AdaptiveLoop} (hl : Tunable l.options) (seen : EventClass → Tally ι)
    (o : ScoreOptions) :
    task (.cycle l seen o) = Task.sure (PeriodJob.cycle l seen o).task := by
  rw [task, cycleTask_eq hl]
  exact Task.sure_bind (Task.ends_true _) fun r _ => rfl

theorem task_push_eq {o : Options} (ho : o.Valid) {q : QuotaLoop} (hq : q.index < o.quota.steps)
    (cs : List EventClass) :
    task (.push (ι := ι) q cs o.quota) = Task.sure (PeriodJob.push (ι := ι) q cs o.quota).task := by
  rw [task, pushTask_eq ho hq]
  exact Task.sure_bind (Task.ends_true _) fun failed _ => rfl

end Job

end AccessSampling.Checked
