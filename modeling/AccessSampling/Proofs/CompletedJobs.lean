import AccessSampling.Proofs.ControllerAtWork
import AccessSampling.Proofs.DrainHistory

/-!
# The jobs that were completed

A job is completed by the operation that does it in one go, or by the move that finds it over. Only
then does what it came to get into the metrics and the counters. So the metrics are those of the
latest cycle, and what the loops have counted are sums over the completed jobs.
-/

namespace AccessSampling

namespace JobResult

/-- The calls of the job that were refused. -/
def failed : JobResult → Nat
  | cycle r => r.cycle.failed
  | push failed => failed

def cycle? : JobResult → Option CycleResult
  | cycle r => some r
  | push _ => none

end JobResult

/-- Whether the cycle could not meet its budget. -/
def CycleResult.isInfeasible (r : CycleResult) : Bool :=
  match r.cycle.budget with
  | .infeasible _ _ => true
  | .within _ | .scaled _ _ => false

/-- What the task has come to, if it is over. -/
def PeriodTask.result? {α : Type} : PeriodTask α → Option α
  | done a => some a
  | known _ _ | get _ _ | set _ _ _ => none

/-! ## The counters of the loops and of the passes -/

namespace Counters

/-- The counters after one more completed job. -/
def charge (k : Counters) (r : JobResult) : Counters :=
  { k with
    periodFailures := k.periodFailures + r.failed
    budgetInfeasible := k.budgetInfeasible + r.cycle?.toList.countP CycleResult.isInfeasible }

/-- The counters without what the loops have counted. -/
def sampling (k : Counters) : Counters := { k with periodFailures := 0, budgetInfeasible := 0 }

/-- What the loops have counted: refused calls, and cycles over the budget. -/
def ofJobs (k : Counters) : Nat × Nat := (k.periodFailures, k.budgetInfeasible)

theorem sampling_charge (k : Counters) (r : JobResult) : (k.charge r).sampling = k.sampling := rfl

end Counters

section Passes

variable {ρ ι : Type} [Resolver ρ ι] [DecidableEq ι]

/-- What the loops have counted is not for the intake to change. -/
theorem Intake.ofJobs_step (m : Nat) (i : Intake ρ ι) (e : Event) :
    (i.step m e).counters.ofJobs = i.counters.ofJobs := by
  cases e with
  | took id c r =>
      cases hverdict : Verdict.ofRecord i.resolver r with
      | accepted item time =>
          rw [step, (consume_of_accepted m hverdict).2]
          rfl
      | excluded why =>
          rw [step, (consume_of_excluded m c hverdict).2]
          cases why with
          | throttling | loss | unknownKind | unreportable | unresolved => rfl
  | foundEmpty | reported => rfl

theorem Intake.ofJobs_foldl (m : Nat) (i : Intake ρ ι) (es : List Event) :
    (es.foldl (step m) i).counters.ofJobs = i.counters.ofJobs := by
  induction es generalizing i with
  | nil => rfl
  | cons e es ih => rw [List.foldl_cons, ih, ofJobs_step]

theorem Controller.ofJobs_drainPass (c : Controller ρ ι) :
    c.drainPass.counters.ofJobs = c.counters.ofJobs := by
  have hintake : c.drainPass.drain.intake = _ :=
    Drain.intake_visitAll c.options.drain c.drain.rings c.drain.store c.drain.intake
  rw [counters, hintake, Intake.ofJobs_foldl]
  rfl

end Passes

/-! ## What a completed job changes -/

namespace Controller

variable {ρ ι : Type}

/-- What `d` shows of the jobs is what `c` shows, except for what a completed job changes, if there
was one. -/
structure Advances (c : Controller ρ ι) (r : Option JobResult) (d : Controller ρ ι) : Prop where
  counters : d.counters = r.elim c.counters c.counters.charge
  metrics : d.metrics = (r.bind JobResult.cycle?).elim c.metrics CycleResult.metrics
  running : d.running = c.running

theorem advances_refl (c : Controller ρ ι) : c.Advances none c := ⟨rfl, rfl, rfl⟩

/-- The quota loop and the writer do not matter. -/
theorem advances_finish (c : Controller ρ ι) (quota : QuotaLoop) (writer : PeriodWriter)
    (r : JobResult) : c.Advances (some r) (finish { c with quota, writer } r) := by
  cases r with
  | push failed => exact ⟨rfl, rfl, rfl⟩
  | cycle r =>
      refine ⟨?_, rfl, rfl⟩
      rcases hbudget : r.cycle.budget with volume | ⟨before, after⟩ | ⟨before, after⟩
      all_goals
        simp [finish, counters, modifyCounters, Counters.charge, JobResult.failed,
          JobResult.cycle?, CycleResult.isInfeasible, hbudget]

variable [DecidableEq ι] (c : Controller ρ ι)

/-- What a job comes to if nothing interrupts it. -/
def outcome (job : PeriodJob ι) : JobResult := (job.task.run c.writer).1

/-- What a cycle in one go comes to, unless there was a shutdown. -/
def cycleOutcome? : Option JobResult :=
  if c.running then some (c.outcome (c.cycleJob c.loop.lastSamples fun _ => c.tally)) else none

/-- What the push of a quota step comes to, if the coarse index moves. -/
def pushOutcome? (u : Usage) : Option JobResult :=
  if (c.observe u).1 then some ((c.observe u).2.outcome (c.observe u).2.pushJob) else none

theorem advances_adapt : c.Advances c.cycleOutcome? c.adapt.2 := by
  cases h : c.running with
  | true =>
      rw [adapt_eq_complete h, cycleOutcome?, if_pos h]
      exact c.advances_finish c.quota _ _
  | false =>
      rw [adapt_of_stopped h, cycleOutcome?, if_neg (by simp [h])]
      exact c.advances_refl

omit [DecidableEq ι] in
/-- A window changes the state of the quota loop alone. -/
theorem observe_snd_eq (u : Usage) : ∃ quota, (c.observe u).2 = { c with quota } := by
  unfold observe
  split
  · exact ⟨c.quota, rfl⟩
  · exact ⟨_, rfl⟩

theorem advances_quotaStep (u : Usage) : c.Advances (c.pushOutcome? u) (c.quotaStep u) := by
  obtain ⟨quota, hobserve⟩ := c.observe_snd_eq u
  rw [quotaStep_eq_complete, pushOutcome?]
  split
  · rw [complete, hobserve]
    exact c.advances_finish quota _ _
  · rw [hobserve]
    exact ⟨rfl, rfl, rfl⟩

/-- A turn is a pass and then, maybe, a push. -/
theorem advances_turn [Resolver ρ ι] (quotaWindow reportWindow : Option Usage) :
    if c.running then
      c.drainPass.Advances (quotaWindow.bind c.drainPass.pushOutcome?)
        (c.turn quotaWindow reportWindow)
    else c.Advances none (c.turn quotaWindow reportWindow) := by
  -- a report logs a line and starts a window, neither of which a job changes
  have hreport (b : Controller ρ ι) (r : Option JobResult) (d : Controller ρ ι) (u : Usage) :
      b.Advances r (d.report u) = b.Advances r d :=
    propext ⟨fun h => ⟨h.counters, h.metrics, h.running⟩,
      fun h => ⟨h.counters, h.metrics, h.running⟩⟩
  cases hrunning : c.running with
  | true =>
      rw [if_pos rfl, c.view_turn (c.drainPass.Advances _) (hreport _ _), if_pos hrunning]
      cases quotaWindow with
      | none => exact c.drainPass.advances_refl
      | some u => exact c.drainPass.advances_quotaStep u
  | false =>
      rw [if_neg (by simp), c.view_turn (c.Advances none) (hreport _ _),
        if_neg (by simp [hrunning])]
      exact c.advances_refl

end Controller

/-! ## The work -/

namespace AtWork

variable {ρ ι : Type} [DecidableEq ι] [Resolver ρ ι]

/-- The job that a move completes, if it completes one. -/
def completes (a : AtWork ρ ι) : Move ι → Option JobResult
  | .op .adapt => a.controller.cycleOutcome?
  | .op (.turn quotaWindow _) =>
    if a.controller.running then quotaWindow.bind a.controller.drainPass.pushOutcome? else none
  | .resume n => a.tasks[n]?.bind PeriodTask.result?
  | _ => none

/-- The controller after the pass of a move, if there is one. -/
def passed (a : AtWork ρ ι) : Move ι → Controller ρ ι
  | .op (.turn _ _) => if a.controller.running then a.controller.drainPass else a.controller
  | _ => a.controller

variable (a : AtWork ρ ι)

theorem passed_of_not_turn {move : Move ι}
    (h : ∀ quotaWindow reportWindow, move ≠ .op (.turn quotaWindow reportWindow)) :
    a.passed move = a.controller := by
  cases move with
  | op op =>
      cases op with
      | turn quotaWindow reportWindow => exact absurd rfl (h quotaWindow reportWindow)
      | push | adapt | shutdown | refuse | override => rfl
  | beginCycle | beginQuotaStep | resume => rfl

/-- A pass changes none of what the jobs change. -/
theorem passed_spec (move : Move ι) :
    (a.passed move).counters.ofJobs = a.controller.counters.ofJobs ∧
      (a.passed move).metrics = a.controller.metrics ∧
      (a.passed move).running = a.controller.running := by
  unfold passed
  split
  · split
    · exact ⟨a.controller.ofJobs_drainPass, rfl, rfl⟩
    · exact ⟨rfl, rfl, rfl⟩
  · exact ⟨rfl, rfl, rfl⟩

/-- A move that is not a shutdown is a pass and the completion of a job, or one of them, or
neither. -/
theorem advances_apply {move : Move ι} (h : move ≠ .op .shutdown) :
    (a.passed move).Advances (a.completes move) (a.apply move).controller := by
  cases move with
  | op op =>
      cases op with
      | push | refuse | override => exact ⟨rfl, rfl, rfl⟩
      | shutdown => exact absurd rfl h
      | turn quotaWindow reportWindow =>
          have hturn := a.controller.advances_turn quotaWindow reportWindow
          rw [completes, passed]
          split
          · rename_i hrunning
            rw [if_pos hrunning] at hturn
            exact hturn
          · rename_i hstopped
            rw [if_neg hstopped] at hturn
            exact hturn
      | adapt => exact a.controller.advances_adapt
  | beginCycle last seen =>
      rw [apply]
      split
      · exact a.controller.advances_refl
      · exact a.controller.advances_refl
  | beginQuotaStep u =>
      obtain ⟨quota, hobserve⟩ := a.controller.observe_snd_eq u
      rw [apply]
      split
      · show a.controller.Advances none (a.controller.observe u).2
        rw [hobserve]
        exact ⟨rfl, rfl, rfl⟩
      · exact a.controller.advances_refl
  | resume n =>
      show a.controller.Advances (a.tasks[n]?.bind PeriodTask.result?) _
      rw [apply]
      cases a.tasks[n]? with
      | none => exact a.controller.advances_refl
      | some t =>
          cases t with
          | done r => exact a.controller.advances_finish a.controller.quota a.controller.writer r
          | known | get | set => exact ⟨rfl, rfl, rfl⟩

/-- The counters change with a pass and with a completed job. -/
theorem counters_apply (move : Move ι) :
    (a.apply move).controller.counters =
      (a.completes move).elim (a.passed move).counters (a.passed move).counters.charge := by
  by_cases h : move = .op .shutdown
  · subst h
    show a.controller.shutdown.counters = a.controller.counters
    unfold Controller.shutdown
    split
    · rfl
    · rfl
  · exact (a.advances_apply h).counters

/-- Only a pass changes the other counters. -/
theorem sampling_apply (move : Move ι) :
    (a.apply move).controller.counters.sampling = (a.passed move).counters.sampling := by
  rw [counters_apply]
  cases a.completes move with
  | none => rfl
  | some r => exact Counters.sampling_charge _ r

/-! ## A run of the work -/

/-- What the jobs came to that some moves completed, in order. -/
def results (a : AtWork ρ ι) : List (Move ι) → List JobResult
  | [] => []
  | move :: moves => (a.completes move).toList ++ (a.apply move).results moves

/-- The cycles that some moves completed, in order. -/
def cycles (a : AtWork ρ ι) (moves : List (Move ι)) : List CycleResult :=
  (a.results moves).filterMap JobResult.cycle?

theorem cycles_cons (move : Move ι) (moves : List (Move ι)) :
    a.cycles (move :: moves) =
      ((a.completes move).bind JobResult.cycle?).toList ++ (a.apply move).cycles moves := by
  rw [cycles, results, List.filterMap_append]
  cases a.completes move with
  | none => rfl
  | some r => cases r with
    | cycle | push => rfl

/-- What the loops have counted are sums over the completed jobs. -/
theorem ofJobs_run (moves : List (Move ι)) :
    (a.run moves).controller.counters.periodFailures =
        a.controller.counters.periodFailures + ((a.results moves).map JobResult.failed).sum ∧
      (a.run moves).controller.counters.budgetInfeasible =
        a.controller.counters.budgetInfeasible +
          (a.cycles moves).countP CycleResult.isInfeasible := by
  induction moves generalizing a with
  | nil => exact ⟨rfl, rfl⟩
  | cons move moves ih =>
      obtain ⟨hfailures, hinfeasible⟩ := ih (a.apply move)
      have hpassed := Prod.mk.inj (a.passed_spec move).1
      rw [run_cons, hfailures, hinfeasible, a.counters_apply move, results, cycles_cons,
        ← hpassed.1, ← hpassed.2]
      cases a.completes move with
      | none => simp
      | some r => simp [Counters.charge, Nat.add_assoc]

/-- Before the shutdown, the metrics are those of the latest completed cycle. -/
theorem metrics_run {moves : List (Move ι)} (h : .op .shutdown ∉ moves) :
    (a.run moves).controller.metrics =
        ((a.cycles moves).map CycleResult.metrics).getLastD a.controller.metrics ∧
      (a.run moves).controller.running = a.controller.running := by
  induction moves generalizing a with
  | nil => exact ⟨rfl, rfl⟩
  | cons move moves ih =>
      obtain ⟨hmetrics, hrunning⟩ := ih (a.apply move) fun hmem => h (by simp [hmem])
      have hmove : move ≠ .op .shutdown := fun heq => h (by simp [heq])
      -- a later cycle replaces the metrics as a whole, so the last one of the rest decides
      have hadvances := a.advances_apply hmove
      obtain ⟨-, hmetrics', hrunning'⟩ := a.passed_spec move
      refine ⟨?_, hrunning.trans (hadvances.running.trans hrunning')⟩
      rw [run_cons, hmetrics, hadvances.metrics, hmetrics', cycles_cons, List.map_append]
      cases (a.completes move).bind JobResult.cycle? with
      | none => rfl
      | some r => rw [Option.toList_some, List.map_singleton, List.singleton_append,
          List.getLastD_cons, Option.elim_some]

end AtWork

end AccessSampling
