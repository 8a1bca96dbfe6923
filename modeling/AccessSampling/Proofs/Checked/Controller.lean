import AccessSampling.Proofs.Checked.Start
import AccessSampling.Proofs.Checked.Tally
import AccessSampling.Proofs.CoarseSteps
import AccessSampling.Proofs.ControllerAtWork

/-!
# A controller with checked operations

The operations of a controller rely on three facts: its options are valid, its period loop has the
same ones, and its coarse index is a place in the coarse tables. The start establishes them and
nothing that happens later breaks them, so from its start on a controller never comes to a fault,
whatever the rings give up, whatever the source refuses, and however the calls of the jobs fall
between one another.
-/

namespace AccessSampling.Checked

variable {ρ ι : Type}

/-! ## The operations -/

section Operations

variable [DecidableEq ι]

def snapshot (c : Controller ρ ι) : Except Fault (PerClass ClassSnapshot) :=
  tabulate fun cls => do
    let heap ← entry c.tally.heaps cls
    let m ← entry c.metrics cls
    let known ← entry c.writer.known cls
    let samples ← entry c.tally.samples cls
    return {
      cls
      heapSize := heap.size
      compositeScore := m.composite
      currentPeriod := known
      cumulativeSamples := samples }

/-- Does a job without interruption. -/
def complete (c : Controller ρ ι) (job : PeriodJob ι) : Except Fault (Controller ρ ι) :=
  let (result, writer) := (task job).run.run c.writer
  do return { c with writer }.finish (← result)

def observeWindow (c : Controller ρ ι) (u : Usage) : Except Fault (Bool × Controller ρ ι) :=
  if c.options.quota.cpuPermil = 0 then return (false, c)
  else do
    let (step, quota) ← observeUsage c.quota u c.options.quota
    return (decide (step ≠ .hold), { c with quota })

def quotaStep (c : Controller ρ ι) (u : Usage) : Except Fault (Controller ρ ι) := do
  let (moved, c) ← observeWindow c u
  if moved then complete c c.pushJob else return c

def reportWindow (c : Controller ρ ι) (u : Usage) : Except Fault (Controller ρ ι) := do
  let samplePeriod ←
    if c.options.quota.cpuPermil = 0 then pure none
    else coarsePeriod? c.options.quota .base c.quota.index
  let cpuPermil ← permil u
  return { c with drain := ← report c.drain samplePeriod (some cpuPermil) }

def adapt (c : Controller ρ ι) : Except Fault (Controller ρ ι) :=
  if c.running then complete c (c.cycleJob c.loop.lastSamples fun _ => c.tally) else return c

section Turn

variable [Resolver ρ ι]

def drainPass (c : Controller ρ ι) : Except Fault (Controller ρ ι) := do
  let (_, drain) ← pass c.drain c.options.drain
  return { c with drain }

def turn (c : Controller ρ ι) (quotaWindow reportWindow? : Option Usage) :
    Except Fault (Controller ρ ι) :=
  if c.running then do
    let c ← drainPass c
    let c ← match quotaWindow with
      | none => pure c
      | some u => quotaStep c u
    match reportWindow? with
    | none => return c
    | some u => reportWindow c u
  else return c

/-- What the hardware and the source do has nothing to check. -/
def applyOp (c : Controller ρ ι) : Controller.Op → Except Fault (Controller ρ ι)
  | .turn quotaWindow reportWindow => turn c quotaWindow reportWindow
  | .adapt => adapt c
  | .shutdown => shutdown c
  | op => return c.apply op

end Turn

/-- What the operations of a controller rely on. -/
structure Ready (c : Controller ρ ι) : Prop where
  valid : c.options.Valid
  loopOptions : c.loop.options = c.options.period
  index_lt : c.quota.index < c.options.quota.steps

variable {c d : Controller ρ ι}

omit [DecidableEq ι] in
theorem Ready.of_sameSetup (h : Ready c) (hsetup : c.SameSetup d)
    (hindex : d.quota.index < c.options.quota.steps) : Ready d where
  valid := hsetup.options ▸ h.valid
  loopOptions := by rw [hsetup.periodOptions, hsetup.options, h.loopOptions]
  index_lt := hsetup.options ▸ hindex

omit [DecidableEq ι] in
theorem Ready.tunable (h : Ready c) : Tunable c.loop.options := by
  rw [h.loopOptions]
  exact
    { min_le_max := Nat.le_of_lt h.valid.min_lt_max
      den_pos := h.valid.den_pos
      num_le_den := h.valid.num_le_den }

omit [DecidableEq ι] in
/-- The index after a window is a place in the tables again. -/
theorem Ready.observe (h : Ready c) (u : Usage) : Ready (c.observe u).2 := by
  refine h.of_sameSetup (c.sameSetup_observe u) ?_
  unfold Controller.observe
  split
  · exact h.index_lt
  · exact (QuotaLoop.window_observe h.index_lt u).index_lt

omit [DecidableEq ι] in
theorem Ready.finish (h : Ready c) (r : JobResult) : Ready (c.finish r) := by
  refine h.of_sameSetup (c.sameSetup_finish r) ?_
  cases r with
  | cycle | push => exact h.index_lt

theorem Ready.complete (h : Ready c) (job : PeriodJob ι) : Ready (c.complete job) := by
  have hwriter : Ready { c with writer := (job.task.run c.writer).2 } :=
    ⟨h.valid, h.loopOptions, h.index_lt⟩
  exact hwriter.finish _

theorem Ready.quotaStep (h : Ready c) (u : Usage) : Ready (c.quotaStep u) := by
  rw [Controller.quotaStep_eq_complete]
  split
  · exact (h.observe u).complete _
  · exact h.observe u

theorem Ready.adapt (h : Ready c) : Ready c.adapt.2 := by
  cases hrunning : c.running with
  | true =>
      rw [Controller.adapt_eq_complete hrunning]
      exact h.complete _
  | false =>
      rw [Controller.adapt_of_stopped hrunning]
      exact h

theorem Ready.shutdown (h : Ready c) : Ready c.shutdown := by
  refine h.of_sameSetup c.sameSetup_shutdown ?_
  unfold Controller.shutdown
  split
  · exact h.index_lt
  · exact h.index_lt

section Turn

variable [Resolver ρ ι]

theorem Ready.drainPass (h : Ready c) : Ready c.drainPass := ⟨h.valid, h.loopOptions, h.index_lt⟩

theorem Ready.turn (h : Ready c) (quotaWindow reportWindow : Option Usage) :
    Ready (c.turn quotaWindow reportWindow) := by
  have hreport (d : Controller ρ ι) (u : Usage) : Ready (d.report u) = Ready d :=
    propext ⟨fun h => ⟨h.valid, h.loopOptions, h.index_lt⟩,
      fun h => ⟨h.valid, h.loopOptions, h.index_lt⟩⟩
  rw [c.view_turn Ready hreport]
  split
  · cases quotaWindow with
    | none => exact h.drainPass
    | some u => exact h.drainPass.quotaStep u
  · exact h

theorem Ready.apply (h : Ready c) (op : Controller.Op) : Ready (c.apply op) := by
  cases op with
  | turn quotaWindow reportWindow => exact h.turn quotaWindow reportWindow
  | adapt => exact h.adapt
  | shutdown => exact h.shutdown
  | push | refuse | override => exact ⟨h.valid, h.loopOptions, h.index_lt⟩

end Turn

/-! ### No operation comes to a fault -/

omit [DecidableEq ι] in
theorem snapshot_eq (c : Controller ρ ι) : snapshot c = .ok c.snapshot := by
  simp only [snapshot, entry_eq, ok_bind, pure_eq_ok]
  exact tabulate_eq fun _ => rfl

theorem complete_eq (c : Controller ρ ι) {job : PeriodJob ι} (h : task job = Task.sure job.task) :
    complete c job = .ok (c.complete job) := by
  rw [complete, h, Task.run_sure]
  rfl

theorem task_cycleJob_eq (h : Ready c) (last : PerClass Nat) (seen : EventClass → Tally ι) :
    task (c.cycleJob last seen) = Task.sure (c.cycleJob last seen).task := by
  have hl : Tunable ({ c.loop with lastSamples := last } : AdaptiveLoop).options := h.tunable
  exact task_cycle_eq hl seen c.options.score

theorem task_pushJob_eq (h : Ready c) : task c.pushJob = Task.sure c.pushJob.task :=
  task_push_eq h.valid h.index_lt c.loop.adaptive

omit [DecidableEq ι] in
theorem observeWindow_eq (c : Controller ρ ι) (u : Usage) :
    observeWindow c u = .ok (c.observe u) := by
  unfold observeWindow Controller.observe
  split
  · rfl
  · rw [observeUsage_eq]
    rfl

theorem quotaStep_eq (h : Ready c) (u : Usage) : quotaStep c u = .ok (c.quotaStep u) := by
  rw [quotaStep, observeWindow_eq, ok_bind, Controller.quotaStep_eq_complete]
  dsimp only
  split
  · exact complete_eq _ (task_pushJob_eq (h.observe u))
  · rfl

omit [DecidableEq ι] in
theorem reportWindow_eq (h : Ready c) (u : Usage) : reportWindow c u = .ok (c.report u) := by
  simp only [reportWindow, coarsePeriod?_eq h.valid h.index_lt, permil_eq, report_eq, ok_bind,
    pure_eq_ok, Controller.report]
  split
  · rfl
  · rfl

theorem adapt_eq (h : Ready c) : adapt c = .ok c.adapt.2 := by
  unfold adapt
  split
  · rename_i hrunning
    rw [Controller.adapt_eq_complete hrunning]
    exact complete_eq c (task_cycleJob_eq h _ _)
  · rename_i hstopped
    rw [Controller.adapt_of_stopped (by simpa using hstopped)]
    rfl

section Turn

variable [Resolver ρ ι]

theorem drainPass_eq (c : Controller ρ ι) : drainPass c = .ok c.drainPass := by
  rw [drainPass, pass_eq]
  rfl

theorem turn_eq (h : Ready c) (quotaWindow window : Option Usage) :
    turn c quotaWindow window = .ok (c.turn quotaWindow window) := by
  unfold turn Controller.turn
  split
  · rw [drainPass_eq, ok_bind]
    cases quotaWindow with
    | none =>
        cases window with
        | none => rfl
        | some u => exact reportWindow_eq h.drainPass u
    | some v =>
        dsimp only
        rw [quotaStep_eq h.drainPass, ok_bind]
        cases window with
        | none => rfl
        | some u => exact reportWindow_eq (h.drainPass.quotaStep v) u
  · rfl

theorem applyOp_eq (h : Ready c) (op : Controller.Op) : applyOp c op = .ok (c.apply op) := by
  cases op with
  | turn quotaWindow reportWindow => exact turn_eq h quotaWindow reportWindow
  | adapt => exact adapt_eq h
  | shutdown => exact shutdown_eq c
  | push | refuse | override => rfl

end Turn

end Operations

/-! ## The work -/

/-- A controller and the jobs that were begun, each of which may come to a fault. -/
structure Work (ρ ι : Type) where
  controller : Controller ρ ι
  tasks : List (PeriodTask (Except Fault JobResult)) := []

namespace Work

/-- Work in which no job comes to a fault. -/
def of (a : AtWork ρ ι) : Work ρ ι :=
  { controller := a.controller, tasks := a.tasks.map fun t => (Task.sure t).run }

variable [DecidableEq ι] [Resolver ρ ι]

def apply (a : Work ρ ι) : AtWork.Move ι → Except Fault (Work ρ ι)
  | .op op => do return { a with controller := ← applyOp a.controller op }
  | .beginCycle last seen =>
    if a.controller.running then
      return { a with tasks := a.tasks ++ [(task (a.controller.cycleJob last seen)).run] }
    else return a
  | .beginQuotaStep u =>
    if a.controller.running then do
      let (moved, c) ← observeWindow a.controller u
      return {
        controller := c
        tasks := if moved then a.tasks ++ [(task c.pushJob).run] else a.tasks }
    else return a
  | .resume n =>
    match a.tasks[n]? with
    | none => return a
    | some (.done result) => do
      return { controller := a.controller.finish (← result), tasks := a.tasks.eraseIdx n }
    | some t =>
      let (t, writer) := t.step a.controller.writer
      return { controller := { a.controller with writer }, tasks := a.tasks.set n t }

def run (a : Work ρ ι) (moves : List (AtWork.Move ι)) : Except Fault (Work ρ ι) :=
  moves.foldlM apply a

variable {a : AtWork ρ ι}

omit [DecidableEq ι] [Resolver ρ ι] in
theorem controller_of : (of a).controller = a.controller := rfl

omit [DecidableEq ι] [Resolver ρ ι] in
theorem getElem?_tasks_of (n : Nat) :
    (of a).tasks[n]? = a.tasks[n]?.map fun t => (Task.sure t).run :=
  List.getElem?_map

omit [DecidableEq ι] [Resolver ρ ι] in
theorem of_append (c : Controller ρ ι) (tasks : List (PeriodTask JobResult))
    (t : PeriodTask JobResult) :
    of { controller := c, tasks := tasks ++ [t] } =
      { controller := c
        tasks := (of { controller := c, tasks }).tasks ++ [(Task.sure t).run] } := by
  simp [of]

/-- A move comes to no fault, and in the jobs there is none after it. -/
theorem apply_of (h : Ready a.controller) (move : AtWork.Move ι) :
    (of a).apply move = .ok (of (a.apply move)) := by
  cases move with
  | op op =>
      rw [apply, controller_of, applyOp_eq h]
      rfl
  | beginCycle last seen =>
      rw [apply, controller_of, task_cycleJob_eq h, AtWork.apply]
      split
      · rw [of_append]
        rfl
      · rfl
  | beginQuotaStep u =>
      rw [apply, controller_of, observeWindow_eq, ok_bind,
        AtWork.apply]
      split
      · dsimp only
        rw [task_pushJob_eq (h.observe u)]
        split
        · rw [of_append]
          rfl
        · rfl
      · rfl
  | resume n =>
      have herase : (of a).tasks.eraseIdx n = (of { a with tasks := a.tasks.eraseIdx n }).tasks :=
        List.eraseIdx_map ..
      have hset (t : PeriodTask JobResult) :
          (of a).tasks.set n (Task.sure t).run = (of { a with tasks := a.tasks.set n t }).tasks :=
        List.map_set.symm
      rw [apply, getElem?_tasks_of, AtWork.apply]
      cases a.tasks[n]? with
      | none => rfl
      | some t =>
          cases t with
          | done r => exact congrArg (Except.ok ∘ Work.mk (a.controller.finish r)) herase
          | known | get | set => exact congrArg (Except.ok ∘ Work.mk _) (hset _)

theorem ready_apply (h : Ready a.controller) (move : AtWork.Move ι) :
    Ready (a.apply move).controller := by
  cases move with
  | op op => exact h.apply op
  | beginCycle last seen =>
      rw [AtWork.apply]
      split
      · exact h
      · exact h
  | beginQuotaStep u =>
      rw [AtWork.apply]
      split
      · exact h.observe u
      · exact h
  | resume n =>
      rw [AtWork.apply]
      cases a.tasks[n]? with
      | none => exact h
      | some t =>
          cases t with
          | done r => exact h.finish r
          | known | get | set => exact ⟨h.valid, h.loopOptions, h.index_lt⟩

theorem run_of (h : Ready a.controller) (moves : List (AtWork.Move ι)) :
    (of a).run moves = .ok (of (a.run moves)) := by
  induction moves generalizing a with
  | nil => rfl
  | cons move moves ih =>
      rw [run, List.foldlM_cons, apply_of h, AtWork.run_cons]
      exact ih (ready_apply h move)

end Work

theorem ready_of_init {o : Options} {source : EventSource} {resolver : ρ} {c : Controller ρ ι}
    (h : Controller.init o source resolver = .ok c) : Ready c := by
  obtain ⟨hv, -, rfl⟩ := Controller.eq_started_of_init h
  exact ⟨hv, rfl, List.length_pos_iff.2 hv.basePeriods_ne_nil⟩

/-- A start comes to no fault, whether the options are refused, the source refuses a call or the
controller is there. From then on no operation comes to a fault, no call of a job at any time does,
and neither does a snapshot after any of them. -/
theorem fault_free [DecidableEq ι] [Resolver ρ ι] (o : Options) (source : EventSource)
    (resolver : ρ) :
    init o source resolver = .ok (Controller.init (ι := ι) o source resolver) ∧
      ∀ c, Controller.init o source resolver = .ok c → ∀ moves : List (AtWork.Move ι),
        (Work.of { controller := c }).run moves =
            .ok (Work.of (AtWork.run { controller := c } moves)) ∧
          snapshot (AtWork.run { controller := c } moves).controller =
            .ok (AtWork.run { controller := c } moves).controller.snapshot :=
  ⟨init_eq o source resolver, fun _ h moves =>
    ⟨Work.run_of (ready_of_init h) moves, snapshot_eq _⟩⟩

/-- A source that refuses to read the period of stores. -/
def mutedSource : EventSource where
  cpus := [0]
  ringSize := 4096
  refuses := fun c op => c = .memWrite && op = .period

/-- Two samples of one page, the second one taken and a busy second reported within a cycle, a cycle
in one go and a shutdown. -/
def busyWork : List (AtWork.Move UInt64) :=
  [.op (.push 0 .memWrite [.sample ⟨1, ⟨1, 1⟩, 5, 0x1000⟩, .sample ⟨1, ⟨1, 1⟩, 7, 0x1008⟩]),
    .op (.turn none none), .beginCycle (.replicate 0) fun _ => .empty 4, .resume 0, .resume 0,
    .op (.turn (some busySecond) (some busySecond))] ++
  .replicate 24 (.resume 0) ++ [.op .adapt, .op .shutdown]

theorem fault_free_busyWork :
    let directory : PageDirectory := {}
    ∃ c, init (ι := UInt64) {} mutedSource directory = .ok (.ok c) ∧
      ∃ a, (Work.of { controller := c }).run busyWork = .ok a ∧
        a.tasks.length = 0 ∧ a.controller.counters.periodFailures = 2 ∧
        ∃ view, snapshot a.controller = .ok view ∧
          view.get .memWrite =
            { cls := .memWrite
              heapSize := 0
              compositeScore := 1099
              currentPeriod := 1000003
              cumulativeSamples := 2 } := by
  intro directory
  have hstart : Controller.init (ι := UInt64) {} mutedSource directory =
      .ok (Controller.started {} mutedSource directory) :=
    Controller.init_of_granted (by decide) (by decide)
  obtain ⟨hinit, hrun⟩ := fault_free (ι := UInt64) {} mutedSource directory
  obtain ⟨hwork, hsnapshot⟩ := hrun _ hstart busyWork
  refine ⟨_, hinit.trans (congrArg Except.ok hstart), _, hwork, ?_, ?_, ?_⟩
  · decide +kernel
  · decide +kernel
  · rw [Work.controller_of]
    exact ⟨_, hsnapshot, by decide +kernel⟩

end AccessSampling.Checked
