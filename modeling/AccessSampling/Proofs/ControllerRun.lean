import AccessSampling.Controller
import AccessSampling.Proofs.PeriodTasks

/-!
# The life of a controller

What happens to a controller is a list of operations, its own and those of the hardware and of other
users of the source. A cycle and a quota step consist of a job on the periods and of what is kept of
its result. None of them changes the setup: the options, the classes that the loops may retune and
the classes that are enabled.
-/

namespace AccessSampling

namespace Controller

variable {ρ ι : Type} [DecidableEq ι]

/-! ## Jobs on periods -/

/-- An adaptive cycle, by the counters of the previous one and the tallies that it sees. -/
def cycleJob (c : Controller ρ ι) (last : PerClass Nat) (seen : EventClass → Tally ι) :
    PeriodJob ι :=
  .cycle { c.loop with lastSamples := last } seen c.options.score

/-- A push of the coarse periods. -/
def pushJob (c : Controller ρ ι) : PeriodJob ι := .push c.quota c.loop.adaptive c.options.quota

/-- Keeps what a job came to. -/
def finish (c : Controller ρ ι) : JobResult → Controller ρ ι
  | .cycle r =>
    let c := { c with loop := { c.loop with lastSamples := r.samples }, metrics := r.metrics }
    c.modifyCounters fun k =>
      { k with
        periodFailures := k.periodFailures + r.cycle.failed
        budgetInfeasible :=
          k.budgetInfeasible + match r.cycle.budget with
            | .infeasible _ _ => 1
            | _ => 0 }
  | .push failed => c.countPeriodFailures failed

/-- Does a job without interruption. -/
def complete (c : Controller ρ ι) (job : PeriodJob ι) : Controller ρ ι :=
  { c with writer := (job.task.run c.writer).2 }.finish (job.task.run c.writer).1

/-- Feeds a window to the quota loop, and tells whether the coarse periods are to be pushed. -/
def observe (c : Controller ρ ι) (u : Usage) : Bool × Controller ρ ι :=
  if c.options.quota.cpuPermil = 0 then (false, c)
  else
    let (step, quota) := c.quota.observe u c.options.quota
    (step ≠ .hold, { c with quota })

theorem adapt_eq_complete {c : Controller ρ ι} (h : c.running = true) :
    c.adapt.2 = c.complete (c.cycleJob c.loop.lastSamples fun _ => c.tally) := by
  rw [adapt, if_pos h, complete, cycleJob, PeriodJob.task, PeriodTask.run_bind,
    AdaptiveLoop.run_cycleTask]
  rfl

theorem adapt_of_stopped {c : Controller ρ ι} (h : c.running = false) : c.adapt = (none, c) := by
  rw [adapt, if_neg (by simp [h])]

theorem quotaStep_eq_complete (c : Controller ρ ι) (u : Usage) :
    c.quotaStep u =
      if (c.observe u).1 then (c.observe u).2.complete (c.observe u).2.pushJob
      else (c.observe u).2 := by
  by_cases hoff : c.options.quota.cpuPermil = 0
  · simp [quotaStep, observe, hoff]
  · rcases hstep : c.quota.observe u c.options.quota with ⟨step, quota⟩
    by_cases hhold : step = .hold
    · simp [quotaStep, observe, hoff, hstep, hhold]
    · simp only [quotaStep, observe, hoff, hstep, hhold, if_false, complete, pushJob,
        PeriodJob.task, PeriodTask.run_bind, QuotaLoop.run_pushTask, ne_eq, not_false_eq_true,
        decide_true, if_true]
      rfl

/-- What a report leaves alone is after a turn as the pass and the quota step have left it. -/
theorem view_turn [Resolver ρ ι] {α : Sort _} (c : Controller ρ ι) (view : Controller ρ ι → α)
    (hreport : ∀ (d : Controller ρ ι) u, view (d.report u) = view d)
    (quotaWindow reportWindow : Option Usage) :
    view (c.turn quotaWindow reportWindow) =
      if c.running then view (quotaWindow.elim c.drainPass c.drainPass.quotaStep) else view c := by
  unfold turn
  split
  · cases quotaWindow with
    | none | some =>
        cases reportWindow with
        | none => rfl
        | some u => exact hreport _ u
  · rfl

/-! ## Operations -/

/-- What can happen to a controller. -/
inductive Op where
  /-- The hardware writes records to a ring. -/
  | push (cpu : Nat) (cls : EventClass) (rs : List Record)
  /-- The drain worker takes a turn. -/
  | turn (quotaWindow reportWindow : Option Usage)
  | adapt
  | shutdown
  /-- The source changes its answer to an operation on a class. -/
  | refuse (cls : EventClass) (op : SourceOp) (refuse : Bool)
  /-- Someone else sets the period of a class. -/
  | override (cls : EventClass) (period : Nat)

section Operations

variable [Resolver ρ ι]

def apply (c : Controller ρ ι) : Op → Controller ρ ι
  | .push cpu cls rs => c.push cpu cls rs
  | .turn quotaWindow reportWindow => c.turn quotaWindow reportWindow
  | .adapt => c.adapt.2
  | .shutdown => c.shutdown
  | .refuse cls op refuse => c.modifySource (·.setRefusal cls op refuse)
  | .override cls period => c.modifySource (·.overridePeriod cls period)

def run (c : Controller ρ ι) (ops : List Op) : Controller ρ ι := ops.foldl apply c

theorem run_append (c : Controller ρ ι) (ops more : List Op) :
    c.run (ops ++ more) = (c.run ops).run more :=
  List.foldl_append

end Operations

/-! ## The setup -/

/-- A controller with the setup of another one. -/
structure SameSetup (c d : Controller ρ ι) : Prop where
  options : d.options = c.options
  periodOptions : d.loop.options = c.loop.options
  adaptive : d.loop.adaptive = c.loop.adaptive
  enabled : d.enabled = c.enabled

omit [DecidableEq ι] in
theorem SameSetup.refl (c : Controller ρ ι) : c.SameSetup c := ⟨rfl, rfl, rfl, rfl⟩

omit [DecidableEq ι] in
theorem SameSetup.trans {c d e : Controller ρ ι} (h : c.SameSetup d) (h' : d.SameSetup e) :
    c.SameSetup e where
  options := h'.options.trans h.options
  periodOptions := h'.periodOptions.trans h.periodOptions
  adaptive := h'.adaptive.trans h.adaptive
  enabled := h'.enabled.trans h.enabled

section Setup

variable (c : Controller ρ ι)

omit [DecidableEq ι] in
theorem sameSetup_finish (r : JobResult) : c.SameSetup (c.finish r) := by
  cases r with
  | cycle | push => exact ⟨rfl, rfl, rfl, rfl⟩

theorem sameSetup_complete (job : PeriodJob ι) : c.SameSetup (c.complete job) := by
  have hwriter : c.SameSetup { c with writer := (job.task.run c.writer).2 } := ⟨rfl, rfl, rfl, rfl⟩
  exact hwriter.trans (sameSetup_finish _ _)

omit [DecidableEq ι] in
theorem sameSetup_observe (u : Usage) : c.SameSetup (c.observe u).2 := by
  unfold observe
  split
  · exact .refl c
  · exact ⟨rfl, rfl, rfl, rfl⟩

theorem sameSetup_quotaStep (u : Usage) : c.SameSetup (c.quotaStep u) := by
  rw [quotaStep_eq_complete]
  split
  · exact (c.sameSetup_observe u).trans (sameSetup_complete _ _)
  · exact c.sameSetup_observe u

variable [Resolver ρ ι]

theorem sameSetup_turn (quotaWindow reportWindow : Option Usage) :
    c.SameSetup (c.turn quotaWindow reportWindow) := by
  have hpass : c.SameSetup c.drainPass := ⟨rfl, rfl, rfl, rfl⟩
  have hreport (d : Controller ρ ι) (u : Usage) : c.SameSetup (d.report u) = c.SameSetup d :=
    propext ⟨fun h => h.trans ⟨rfl, rfl, rfl, rfl⟩, fun h => h.trans ⟨rfl, rfl, rfl, rfl⟩⟩
  rw [c.view_turn c.SameSetup hreport]
  split
  · cases quotaWindow with
    | none => exact hpass
    | some u => exact hpass.trans (c.drainPass.sameSetup_quotaStep u)
  · exact .refl c

omit [Resolver ρ ι] in
theorem sameSetup_adapt : c.SameSetup c.adapt.2 := by
  cases h : c.running with
  | true =>
      rw [adapt_eq_complete h]
      exact c.sameSetup_complete _
  | false =>
      rw [adapt_of_stopped h]
      exact .refl c

omit [Resolver ρ ι] in
theorem sameSetup_shutdown : c.SameSetup c.shutdown := by
  unfold shutdown
  split
  · exact ⟨rfl, rfl, rfl, rfl⟩
  · exact .refl c

theorem sameSetup_apply (op : Op) : c.SameSetup (c.apply op) := by
  cases op with
  | turn quotaWindow reportWindow => exact c.sameSetup_turn quotaWindow reportWindow
  | adapt => exact c.sameSetup_adapt
  | shutdown => exact c.sameSetup_shutdown
  | push | refuse | override => exact ⟨rfl, rfl, rfl, rfl⟩

end Setup

end Controller

end AccessSampling
