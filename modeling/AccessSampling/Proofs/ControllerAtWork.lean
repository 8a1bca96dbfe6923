import AccessSampling.Proofs.ControllerRun
import AccessSampling.Proofs.Startup

/-!
# A controller at work

A job on the periods need not be done in one go. Between two of its calls other jobs may make theirs
and whole operations may happen, and a cycle may see each class at another time. A property of the
writer that no single call breaks still holds all the time.
-/

namespace AccessSampling

/-- A controller and the jobs that were begun. -/
structure AtWork (ρ ι : Type) where
  controller : Controller ρ ι
  tasks : List (PeriodTask JobResult) := []

namespace AtWork

/-- One step of the work. -/
inductive Move (ι : Type) where
  /-- A whole operation. -/
  | op (op : Controller.Op)
  | beginCycle (last : PerClass Nat) (seen : EventClass → Tally ι)
  | beginQuotaStep (u : Usage)
  /-- A job makes its next call, or it is over. -/
  | resume (n : Nat)

variable {ρ ι : Type} [DecidableEq ι]

/-- After a shutdown no job begins, but those that were begun go on. -/
def apply [Resolver ρ ι] (a : AtWork ρ ι) : Move ι → AtWork ρ ι
  | .op op => { a with controller := a.controller.apply op }
  | .beginCycle last seen =>
    if a.controller.running then
      { a with tasks := a.tasks ++ [(a.controller.cycleJob last seen).task] }
    else a
  | .beginQuotaStep u =>
    if a.controller.running then
      let (moved, c) := a.controller.observe u
      { controller := c, tasks := if moved then a.tasks ++ [c.pushJob.task] else a.tasks }
    else a
  | .resume n =>
    match a.tasks[n]? with
    | none => a
    | some (.done r) => { controller := a.controller.finish r, tasks := a.tasks.eraseIdx n }
    | some t =>
      let (t, writer) := t.step a.controller.writer
      { controller := { a.controller with writer }, tasks := a.tasks.set n t }

def run [Resolver ρ ι] (a : AtWork ρ ι) (moves : List (Move ι)) : AtWork ρ ι :=
  moves.foldl apply a

end AtWork

namespace Controller

variable {ρ ι : Type} [DecidableEq ι]

/-! ## What work keeps -/

/-- A property of the writer that no job of a controller breaks. -/
structure KeptByJobs (c : Controller ρ ι) (P : PeriodWriter → Prop) : Prop where
  cycle : ∀ last seen, (c.cycleJob last seen).task.Safe P fun _ => True
  push : ∀ quota, ({ c with quota }.pushJob).task.Safe P fun _ => True

/-- A property of the writer that an operation does not break, the jobs in it apart. -/
def Op.Keeps (P : PeriodWriter → Prop) : Op → Prop
  | .push .. | .turn .. | .adapt => True
  | .shutdown => ∀ w cls, P w → P { w with source := w.source.perform (.disable cls) }
  | .refuse cls op b => ∀ w, P w → P { w with source := w.source.setRefusal cls op b }
  | .override cls period => ∀ w, P w → P { w with source := w.source.overridePeriod cls period }

/-- A property of the writer that neither the jobs of a controller, nor a shutdown, nor a change of
what the source refuses breaks. -/
structure Kept (c : Controller ρ ι) (P : PeriodWriter → Prop) : Prop extends c.KeptByJobs P where
  disable : ∀ w cls, P w → P { w with source := w.source.perform (.disable cls) }
  refuse : ∀ w cls op b, P w → P { w with source := w.source.setRefusal cls op b }

/-- What is kept so is at risk only when someone else sets a period. -/
theorem Kept.keeps {c : Controller ρ ι} {P : PeriodWriter → Prop} (hk : c.Kept P) {op : Op}
    (hop : ∀ cls period, op = .override cls period → op.Keeps P) : op.Keeps P := by
  cases op with
  | push | turn | adapt => trivial
  | shutdown => exact hk.disable
  | refuse cls op b => exact fun w hw => hk.refuse w cls op b hw
  | override cls period => exact hop cls period rfl

variable {c d : Controller ρ ι} {P : PeriodWriter → Prop}

omit [DecidableEq ι] in
theorem SameSetup.cycleJob_eq (h : c.SameSetup d) (last : PerClass Nat)
    (seen : EventClass → Tally ι) : d.cycleJob last seen = c.cycleJob last seen := by
  simp only [cycleJob, h.options, h.periodOptions, h.adaptive]

omit [DecidableEq ι] in
theorem SameSetup.pushJob_eq (h : c.SameSetup d) :
    d.pushJob = { c with quota := d.quota }.pushJob := by
  rw [pushJob, pushJob, h.options, h.adaptive]

omit [DecidableEq ι] in
theorem writer_finish (c : Controller ρ ι) (r : JobResult) : (c.finish r).writer = c.writer := by
  cases r with
  | cycle | push => rfl

omit [DecidableEq ι] in
theorem writer_observe (c : Controller ρ ι) (u : Usage) : (c.observe u).2.writer = c.writer := by
  unfold observe
  split
  · rfl
  · rfl

theorem writer_complete (c : Controller ρ ι) (job : PeriodJob ι) :
    (c.complete job).writer = (job.task.run c.writer).2 :=
  writer_finish ..

namespace KeptByJobs

section Operations

variable (hk : c.KeptByJobs P) (hsetup : c.SameSetup d) (hw : P d.writer)

include hk hsetup

theorem safe_cycleJob (last : PerClass Nat) (seen : EventClass → Tally ι) :
    (d.cycleJob last seen).task.Safe P fun _ => True := by
  rw [hsetup.cycleJob_eq]
  exact hk.cycle last seen

theorem safe_pushJob : d.pushJob.task.Safe P fun _ => True := by
  rw [hsetup.pushJob_eq]
  exact hk.push d.quota

include hw

theorem adapt : P d.adapt.2.writer := by
  cases h : d.running with
  | true =>
      rw [adapt_eq_complete h, writer_complete]
      exact ((hk.safe_cycleJob hsetup _ _).run hw).2
  | false =>
      rw [adapt_of_stopped h]
      exact hw

theorem quotaStep (u : Usage) : P (d.quotaStep u).writer := by
  have hobserve : P (d.observe u).2.writer := by
    rw [writer_observe]
    exact hw
  rw [quotaStep_eq_complete]
  split
  · rw [writer_complete]
    exact ((hk.safe_pushJob (hsetup.trans (d.sameSetup_observe u))).run hobserve).2
  · exact hobserve

end Operations

omit [DecidableEq ι] in
/-- What a call that disables a class does not break, the shutdown does not break. -/
theorem stopClasses
    (h : ∀ w cls, P w → P { w with source := w.source.perform (.disable cls) })
    (cs : List EventClass) {w : PeriodWriter} (hw : P w) :
    P { w with source := Controller.stopClasses cs w.source } := by
  induction cs generalizing w with
  | nil => exact hw
  | cons cls cs ih =>
      show P { w with source := Controller.stopClasses cs (w.source.disable cls).2 }
      rw [EventSource.disable_eq]
      exact ih (h w cls hw)

section Run

variable [Resolver ρ ι]

theorem turn (hk : c.KeptByJobs P) (hsetup : c.SameSetup d) (hw : P d.writer)
    (quotaWindow reportWindow : Option Usage) : P (d.turn quotaWindow reportWindow).writer := by
  rw [d.view_turn (fun e => P e.writer) fun _ _ => rfl]
  split
  · cases quotaWindow with
    | none => exact hw
    | some u =>
        have hpass : c.SameSetup d.drainPass := hsetup.trans ⟨rfl, rfl, rfl, rfl⟩
        exact hk.quotaStep hpass hw u
  · exact hw

/-- One operation. -/
theorem apply (hk : c.KeptByJobs P) (hsetup : c.SameSetup d) (hw : P d.writer) {op : Op}
    (hop : op.Keeps P) : P (d.apply op).writer := by
  cases op with
  | push => exact hw
  | turn quotaWindow reportWindow => exact hk.turn hsetup hw quotaWindow reportWindow
  | adapt => exact hk.adapt hsetup hw
  | shutdown =>
      show P d.shutdown.writer
      unfold Controller.shutdown
      split
      · exact stopClasses hop d.enabled hw
      · exact hw
  | refuse => exact hop d.writer hw
  | override => exact hop d.writer hw

end Run

end KeptByJobs

end Controller

/-! ## Work without interruption -/

namespace AtWork

section Uninterrupted

variable {ρ ι : Type} [DecidableEq ι] [Resolver ρ ι]

theorem run_cons (a : AtWork ρ ι) (move : Move ι) (moves : List (Move ι)) :
    a.run (move :: moves) = (a.apply move).run moves := rfl

/-- One call of the job that was begun last. -/
theorem apply_resume {t : PeriodTask JobResult} (h : ∀ r, t ≠ .done r) (c : Controller ρ ι)
    (tasks : List (PeriodTask JobResult)) :
    apply { controller := c, tasks := tasks ++ [t] } (.resume tasks.length) =
      { controller := { c with writer := (t.step c.writer).2 }
        tasks := tasks ++ [(t.step c.writer).1] } := by
  cases t with
  | done r => exact absurd rfl (h r)
  | known | get | set => simp [apply]

theorem apply_resume_done (r : JobResult) (c : Controller ρ ι)
    (tasks : List (PeriodTask JobResult)) :
    apply { controller := c, tasks := tasks ++ [.done r] } (.resume tasks.length) =
      { controller := c.finish r, tasks } := by
  simp [apply, List.eraseIdx_append_of_length_le]

/-- Resumed again and again, the job that was begun last runs to its end. -/
theorem exists_run_resume (t : PeriodTask JobResult) (c : Controller ρ ι)
    (tasks : List (PeriodTask JobResult)) :
    ∃ n, run { controller := c, tasks := tasks ++ [t] } (.replicate n (.resume tasks.length)) =
      { controller := { c with writer := (t.run c.writer).2 }.finish (t.run c.writer).1
        tasks } := by
  induction t generalizing c with
  | done r => exact ⟨1, apply_resume_done r c tasks⟩
  | known cls next ih =>
      obtain ⟨n, hn⟩ := ih (c.writer.known.get cls) c
      refine ⟨n + 1, ?_⟩
      rw [List.replicate_succ, run_cons, apply_resume (by simp)]
      exact hn
  | get cls next ih =>
      obtain ⟨n, hn⟩ := ih (c.writer.get cls).1 { c with writer := (c.writer.get cls).2 }
      refine ⟨n + 1, ?_⟩
      rw [List.replicate_succ, run_cons, apply_resume (by simp)]
      exact hn
  | set cls p next ih =>
      obtain ⟨n, hn⟩ := ih (c.writer.set cls p).1 { c with writer := (c.writer.set cls p).2 }
      refine ⟨n + 1, ?_⟩
      rw [List.replicate_succ, run_cons, apply_resume (by simp)]
      exact hn

/-- A cycle that nothing interrupts is the whole operation. -/
theorem exists_run_cycle {c : Controller ρ ι} (h : c.running = true)
    (tasks : List (PeriodTask JobResult)) :
    ∃ n, run { controller := c, tasks }
        (.beginCycle c.loop.lastSamples (fun _ => c.tally) ::
          .replicate n (.resume tasks.length)) =
      { controller := c.adapt.2, tasks } := by
  obtain ⟨n, hn⟩ :=
    exists_run_resume (c.cycleJob c.loop.lastSamples fun _ => c.tally).task c tasks
  refine ⟨n, ?_⟩
  rw [Controller.adapt_eq_complete h, run_cons, apply, if_pos h]
  exact hn

/-- A quota step that nothing interrupts is the whole step. -/
theorem exists_run_quotaStep {c : Controller ρ ι} (h : c.running = true)
    (tasks : List (PeriodTask JobResult)) (u : Usage) :
    ∃ n, run { controller := c, tasks }
        (.beginQuotaStep u :: .replicate n (.resume tasks.length)) =
      { controller := c.quotaStep u, tasks } := by
  rw [Controller.quotaStep_eq_complete]
  cases hmoved : (c.observe u).1 with
  | false =>
      refine ⟨0, ?_⟩
      rw [run_cons, apply, if_pos h]
      simp [hmoved, run]
  | true =>
      obtain ⟨n, hn⟩ := exists_run_resume (c.observe u).2.pushJob.task (c.observe u).2 tasks
      refine ⟨n, ?_⟩
      rw [run_cons, apply, if_pos h]
      simp only [hmoved, if_true]
      exact hn

end Uninterrupted

end AtWork

/-! ## A run of the work -/

namespace AtWork

variable {ρ ι : Type} [DecidableEq ι] [Resolver ρ ι]

/-- A property of the writer, kept by the controller and by every job that was begun. -/
structure Keeps (c : Controller ρ ι) (P : PeriodWriter → Prop) (a : AtWork ρ ι) : Prop where
  setup : c.SameSetup a.controller
  writer : P a.controller.writer
  tasks : ∀ t ∈ a.tasks, t.Safe P fun _ => True

variable {c : Controller ρ ι} {P : PeriodWriter → Prop} {a : AtWork ρ ι}

theorem Keeps.resume (h : a.Keeps c P) (n : Nat) : (a.apply (.resume n)).Keeps c P := by
  simp only [apply]
  split
  · exact h
  · rename_i r hn
    refine ⟨h.setup.trans (Controller.sameSetup_finish _ r), ?_, ?_⟩
    · rw [Controller.writer_finish]
      exact h.writer
    · exact fun t ht => h.tasks t (List.mem_of_mem_eraseIdx ht)
  · rename_i t _ hn
    obtain ⟨hsafe, hw⟩ := (h.tasks t (List.mem_of_getElem? hn)).step h.writer
    refine ⟨h.setup.trans ⟨rfl, rfl, rfl, rfl⟩, hw, fun t' ht' => ?_⟩
    rcases List.mem_or_eq_of_mem_set ht' with ht' | rfl
    · exact h.tasks t' ht'
    · exact hsafe

/-- One step of the work. -/
theorem Keeps.apply (h : a.Keeps c P) (hk : c.KeptByJobs P) {move : Move ι}
    (hmove : ∀ op, move = .op op → op.Keeps P) : (a.apply move).Keeps c P := by
  cases move with
  | op op =>
      exact ⟨h.setup.trans (a.controller.sameSetup_apply op),
        hk.apply h.setup h.writer (hmove op rfl), h.tasks⟩
  | beginCycle last seen =>
      simp only [AtWork.apply]
      split
      · refine ⟨h.setup, h.writer, fun t ht => ?_⟩
        rcases List.mem_append.1 ht with ht | ht
        · exact h.tasks t ht
        · rw [List.mem_singleton.1 ht]
          exact hk.safe_cycleJob h.setup last seen
      · exact h
  | beginQuotaStep u =>
      simp only [AtWork.apply]
      split
      · have hsetup := h.setup.trans (a.controller.sameSetup_observe u)
        refine ⟨hsetup, ?_, fun t ht => ?_⟩
        · show P (a.controller.observe u).2.writer
          rw [Controller.writer_observe]
          exact h.writer
        · split at ht
          · rcases List.mem_append.1 ht with ht | ht
            · exact h.tasks t ht
            · rw [List.mem_singleton.1 ht]
              exact hk.safe_pushJob hsetup
          · exact h.tasks t ht
      · exact h
  | resume n => exact h.resume n

/-- What neither the jobs nor the operations break holds at any time of the work. -/
theorem Keeps.run (h : a.Keeps c P) (hk : c.KeptByJobs P) {moves : List (Move ι)}
    (hmoves : ∀ op, .op op ∈ moves → op.Keeps P) : (a.run moves).Keeps c P := by
  induction moves generalizing a with
  | nil => exact h
  | cons move moves ih =>
      refine ih (h.apply hk fun op hop => hmoves op ?_) fun op hop => hmoves op ?_
      · exact hop ▸ List.mem_cons_self
      · exact List.mem_cons_of_mem _ hop

end AtWork

end AccessSampling
