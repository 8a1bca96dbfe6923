import AccessSampling.Proofs.CompletedJobs

/-!
# Counting what the source refuses

The refused reads and writes of periods are counted in three places: by the two halves of a cycle
and by a push. Each job carries its own count from call to call and hands it over when it is
completed. So at any time every refused call is in the shared counter or in the count of a job under
way, and in one of them only.
-/

namespace AccessSampling

/-! ## Refused calls of a log -/

/-- A refused read or write of a period. -/
def LoggedCall.isPeriodFailure (e : LoggedCall) : Bool :=
  !e.granted && (decide (e.call.op = .period) || decide (e.call.op = .setPeriod))

/-- One for a refusal. -/
def refusals {α : Type} : Except Refusal α → Nat
  | .error _ => 1
  | .ok _ => 0

namespace EventSource

/-- Of the calls that a source received between two states, it refused so many reads and writes of
periods. -/
def Refused (s : EventSource) (n : Nat) (s' : EventSource) : Prop :=
  ∃ es : List LoggedCall, s'.calls = s.calls ++ es.toArray ∧
    es.countP LoggedCall.isPeriodFailure = n

variable {s s' s'' : EventSource} {m n : Nat}

theorem refused_of_calls_eq (h : s'.calls = s.calls) : s.Refused 0 s' := ⟨[], by simp [h], rfl⟩

theorem Refused.trans (h : s.Refused m s') (h' : s'.Refused n s'') : s.Refused (m + n) s'' := by
  obtain ⟨es, hcalls, hcount⟩ := h
  obtain ⟨es', hcalls', hcount'⟩ := h'
  refine ⟨es ++ es', ?_, ?_⟩
  · rw [hcalls', hcalls]
    simp
  · rw [List.countP_append, hcount, hcount']

theorem refused_perform (s : EventSource) (call : SourceCall) :
    s.Refused ([s.entry call].countP LoggedCall.isPeriodFailure) (s.perform call) :=
  ⟨[s.entry call], by simp, rfl⟩

theorem refused_perform_disable (s : EventSource) (c : EventClass) :
    s.Refused 0 (s.perform (.disable c)) := by
  have h := s.refused_perform (.disable c)
  simpa [entry, LoggedCall.isPeriodFailure, SourceCall.op] using h

end EventSource

namespace PeriodWriter

theorem refused_get (w : PeriodWriter) (c : EventClass) :
    w.source.Refused (refusals (w.get c).1) (w.get c).2.source := by
  have h := w.source.refused_perform (.period c)
  rw [source_get]
  cases hrefused : w.source.refuses c .period with
  | true =>
      rw [get_of_refused hrefused]
      simpa [EventSource.entry, LoggedCall.isPeriodFailure, SourceCall.op, SourceCall.cls, refusals,
        hrefused] using h
  | false =>
      rw [get_of_granted hrefused]
      simpa [EventSource.entry, LoggedCall.isPeriodFailure, SourceCall.op, SourceCall.cls, refusals,
        hrefused] using h

theorem refused_set (w : PeriodWriter) (c : EventClass) (p : Nat) :
    w.source.Refused (refusals (w.set c p).1) (w.set c p).2.source := by
  have h := w.source.refused_perform (.setPeriod c p)
  rw [source_set]
  cases hrefused : w.source.refuses c .setPeriod with
  | true =>
      rw [set_of_refused hrefused]
      simpa [EventSource.entry, LoggedCall.isPeriodFailure, SourceCall.op, SourceCall.cls, refusals,
        hrefused] using h
  | false =>
      rw [set_of_granted hrefused]
      simpa [EventSource.entry, LoggedCall.isPeriodFailure, SourceCall.op, SourceCall.cls, refusals,
        hrefused] using h

end PeriodWriter

/-! ## The count of a job -/

namespace PeriodTask

variable {α β : Type} {failed : α → Nat} {t : PeriodTask α} {n : Nat}

/-- The task counts every refused call, and it has met so many so far. -/
def Counts (failed : α → Nat) : PeriodTask α → Nat → Prop
  | done a, n => failed a = n
  | known _ next, n => ∀ p, (next p).Counts failed n
  | get _ next, n => ∀ answer, (next answer).Counts failed (n + refusals answer)
  | set _ _ next, n => ∀ answer, (next answer).Counts failed (n + refusals answer)

/-- What the task counts if no further call is refused. -/
def counted (failed : α → Nat) : PeriodTask α → Nat
  | done a => failed a
  | known _ next => (next 0).counted failed
  | get _ next => (next (.ok 0)).counted failed
  | set _ _ next => (next (.ok ())).counted failed

theorem Counts.counted_eq (h : t.Counts failed n) : t.counted failed = n := by
  induction t with
  | done a => exact h
  | known c next ih => exact ih 0 (h 0)
  | get c next ih => exact ih (.ok 0) (h (.ok 0))
  | set c p next ih => exact ih (.ok ()) (h (.ok ()))

theorem Counts.bind {total : β → Nat} {f : α → PeriodTask β} (h : t.Counts failed n)
    (hf : ∀ a, (f a).Counts total (failed a)) : (t >>= f).Counts total n := by
  induction t generalizing n with
  | done a =>
      have hn : failed a = n := h
      exact hn ▸ hf a
  | known c next ih => exact fun p => ih p (h p)
  | get c next ih => exact fun answer => ih answer (h answer)
  | set c p next ih => exact fun answer => ih answer (h answer)

theorem counts_foldlM {γ : Type} {f : α → γ → PeriodTask α}
    (hf : ∀ a x, (f a x).Counts failed (failed a)) (xs : List γ) (a : α) :
    (xs.foldlM f a).Counts failed (failed a) := by
  induction xs generalizing a with
  | nil => rfl
  | cons x xs ih =>
      rw [List.foldlM_cons]
      exact (hf a x).bind ih

/-- One call. -/
theorem Counts.step (h : t.Counts failed n) (w : PeriodWriter) :
    ∃ m, w.source.Refused m (t.step w).2.source ∧ (t.step w).1.Counts failed (n + m) := by
  cases t with
  | done a => exact ⟨0, EventSource.refused_of_calls_eq rfl, h⟩
  | known c next => exact ⟨0, EventSource.refused_of_calls_eq rfl, h _⟩
  | get c next => exact ⟨_, w.refused_get c, h _⟩
  | set c p next => exact ⟨_, w.refused_set c p, h _⟩

/-- The task without interruption. -/
theorem Counts.run (h : t.Counts failed n) (w : PeriodWriter) :
    ∃ m, w.source.Refused m (t.run w).2.source ∧ failed (t.run w).1 = n + m := by
  induction t generalizing n w with
  | done a => exact ⟨0, EventSource.refused_of_calls_eq rfl, h⟩
  | known c next ih => exact ih _ (h _) w
  | get c next ih =>
      obtain ⟨m, hrefused, hfailed⟩ := ih _ (h (w.get c).1) (w.get c).2
      exact ⟨_, (w.refused_get c).trans hrefused, by rw [run, hfailed, Nat.add_assoc]⟩
  | set c p next ih =>
      obtain ⟨m, hrefused, hfailed⟩ := ih _ (h (w.set c p).1) (w.set c p).2
      exact ⟨_, (w.refused_set c p).trans hrefused, by rw [run, hfailed, Nat.add_assoc]⟩

end PeriodTask

section Jobs

variable {ι : Type} [DecidableEq ι]

namespace AdaptiveLoop

theorem counts_surveyTask (l : AdaptiveLoop) (seen : EventClass → Tally ι) (o : ScoreOptions)
    (s : Findings) (c : EventClass) :
    (l.surveyTask seen o s c).Counts Findings.failed s.failed := by
  intro known
  dsimp only
  split
  · intro answer
    cases answer with
    | error | ok => rfl
  · rfl

theorem counts_retuneTask (before : Nat) (r : Rewrites) (p : Projection) :
    (retuneTask r p).Counts (fun r => before + r.failed) (before + r.failed) := by
  intro answer
  cases answer with
  | error | ok => rfl

/-- A cycle counts its reads and then goes on with its writes. -/
theorem counts_cycleTask (l : AdaptiveLoop) (seen : EventClass → Tally ι) (o : ScoreOptions) :
    (l.cycleTask seen o).Counts (fun r => r.cycle.failed) 0 := by
  have hsurvey : (EventClass.all.foldlM (l.surveyTask seen o) {}).Counts Findings.failed 0 :=
    PeriodTask.counts_foldlM (l.counts_surveyTask seen o) EventClass.all {}
  refine hsurvey.bind fun s => ?_
  rcases enforceBudget l.options.budget l.options.max s.projections with ⟨budget, qs⟩
  have hretune : (qs.foldlM retuneTask { metrics := s.metrics }).Counts
      (fun r => s.failed + r.failed) s.failed :=
    PeriodTask.counts_foldlM (counts_retuneTask s.failed) qs { metrics := s.metrics }
  exact hretune.bind fun r => rfl

end AdaptiveLoop

theorem QuotaLoop.counts_pushTask (q : QuotaLoop) (cs : List EventClass) (o : QuotaOptions) :
    (q.pushTask cs o).Counts id 0 := by
  refine PeriodTask.counts_foldlM (fun failed c => ?_) cs 0
  unfold pushClassTask
  split
  · rfl
  · intro answer
    cases answer with
    | error | ok => rfl

/-- A job that is begun has met no refusal yet. -/
theorem PeriodJob.counts_task (job : PeriodJob ι) : job.task.Counts JobResult.failed 0 := by
  cases job with
  | cycle l seen o => exact (l.counts_cycleTask seen o).bind fun r => rfl
  | push q cs o => exact (q.counts_pushTask cs o).bind fun failed => rfl

end Jobs

/-! ## Operations -/

namespace Controller

variable {ρ ι : Type} [DecidableEq ι] (c : Controller ρ ι)

theorem refused_complete (job : PeriodJob ι) :
    c.source.Refused (c.outcome job).failed (c.complete job).source := by
  obtain ⟨m, hrefused, hfailed⟩ := job.counts_task.run c.writer
  show c.writer.source.Refused _ (c.complete job).writer.source
  rw [writer_complete, outcome, hfailed, Nat.zero_add]
  exact hrefused

theorem refused_adapt :
    c.source.Refused (c.cycleOutcome?.elim 0 JobResult.failed) c.adapt.2.source := by
  cases h : c.running with
  | true =>
      rw [adapt_eq_complete h, cycleOutcome?, if_pos h]
      exact c.refused_complete _
  | false =>
      rw [adapt_of_stopped h, cycleOutcome?, if_neg (by simp [h])]
      exact EventSource.refused_of_calls_eq rfl

theorem refused_quotaStep (u : Usage) :
    c.source.Refused ((c.pushOutcome? u).elim 0 JobResult.failed) (c.quotaStep u).source := by
  have hsource : (c.observe u).2.source = c.source :=
    congrArg PeriodWriter.source (writer_observe c u)
  rw [quotaStep_eq_complete, pushOutcome?, ← hsource]
  split
  · exact (c.observe u).2.refused_complete _
  · exact EventSource.refused_of_calls_eq rfl

theorem refused_shutdown : c.source.Refused 0 c.shutdown.source := by
  have hstop : c.source.Refused 0 (stopClasses c.enabled c.source) :=
    KeptByJobs.stopClasses (P := fun w => c.source.Refused 0 w.source)
      (fun w cls hw => hw.trans (w.source.refused_perform_disable cls)) c.enabled
      (EventSource.refused_of_calls_eq rfl)
  unfold shutdown
  split
  · exact hstop
  · exact EventSource.refused_of_calls_eq rfl

theorem refused_turn [Resolver ρ ι] (quotaWindow reportWindow : Option Usage) :
    c.source.Refused
      ((if c.running then quotaWindow.bind c.drainPass.pushOutcome? else none).elim 0
        JobResult.failed)
      (c.turn quotaWindow reportWindow).source := by
  rw [c.view_turn source fun _ _ => rfl]
  split
  · cases quotaWindow with
    | none => exact EventSource.refused_of_calls_eq rfl
    | some u => exact c.drainPass.refused_quotaStep u
  · exact EventSource.refused_of_calls_eq rfl

end Controller

/-! ## The work -/

namespace AtWork

variable {ρ ι : Type} {a : AtWork ρ ι}

/-- The refused calls that the jobs under way have still to hand over. -/
def pending (a : AtWork ρ ι) : Nat := (a.tasks.map (PeriodTask.counted JobResult.failed)).sum

/-- Every job under way counts its refused calls. -/
def Counting (a : AtWork ρ ι) : Prop := ∀ t ∈ a.tasks, ∃ n, t.Counts JobResult.failed n

theorem pending_of_perm {t : PeriodTask JobResult} {rest : List (PeriodTask JobResult)}
    (h : a.tasks.Perm (t :: rest)) (c : Controller ρ ι) :
    a.pending = t.counted JobResult.failed + pending { controller := c, tasks := rest } := by
  have hsum := (h.map (PeriodTask.counted JobResult.failed)).sum_nat
  rw [List.map_cons, List.sum_cons] at hsum
  exact hsum

variable [DecidableEq ι]

theorem pending_append (a : AtWork ρ ι) (c : Controller ρ ι) (job : PeriodJob ι) :
    pending { controller := c, tasks := a.tasks ++ [job.task] } = a.pending := by
  rw [pending_of_perm (List.perm_append_singleton ..) a.controller, job.counts_task.counted_eq,
    Nat.zero_add]

theorem Counting.append (h : a.Counting) (c : Controller ρ ι) (job : PeriodJob ι) :
    Counting { controller := c, tasks := a.tasks ++ [job.task] } := by
  intro t ht
  rcases List.mem_append.1 ht with ht | ht
  · exact h t ht
  · rw [List.mem_singleton.1 ht]
    exact ⟨0, job.counts_task⟩

variable [Resolver ρ ι]

/-- In the move the source refused `m` reads and writes: a completed job hands them over, or the
jobs under way have so many more to hand over. -/
structure Accounts (a : AtWork ρ ι) (move : Move ι) (m : Nat) : Prop where
  refused : a.controller.source.Refused m (a.apply move).controller.source
  handed : (a.completes move).elim 0 JobResult.failed + (a.apply move).pending = a.pending + m
  counting : (a.apply move).Counting

/-- An operation hands over what it has met. -/
theorem Counting.op (h : a.Counting) (op : Controller.Op) :
    a.Accounts (.op op) ((a.completes (.op op)).elim 0 JobResult.failed) where
  refused := by
    cases op with
    | push | refuse | override => exact EventSource.refused_of_calls_eq rfl
    | turn quotaWindow reportWindow => exact a.controller.refused_turn quotaWindow reportWindow
    | adapt => exact a.controller.refused_adapt
    | shutdown => exact a.controller.refused_shutdown
  handed := Nat.add_comm ..
  counting := h

/-- A move without a call completes no job and begins one at most, which has nothing to count
yet. -/
theorem Counting.quiet (h : a.Counting) {move : Move ι}
    (hsource : (a.apply move).controller.source = a.controller.source)
    (hcompletes : a.completes move = none)
    (htasks : (a.apply move).tasks = a.tasks ∨
      ∃ job : PeriodJob ι, (a.apply move).tasks = a.tasks ++ [job.task]) : a.Accounts move 0 := by
  refine ⟨EventSource.refused_of_calls_eq (congrArg EventSource.calls hsource), ?_, ?_⟩
  · rw [hcompletes, Option.elim_none, Nat.zero_add, Nat.add_zero]
    rcases htasks with heq | ⟨job, heq⟩
    · rw [pending, heq, pending]
    · rw [← a.pending_append (a.apply move).controller job, ← heq]
  · rcases htasks with heq | ⟨job, heq⟩
    · exact fun t ht => h t (heq ▸ ht)
    · have happend := h.append (a.apply move).controller job
      rw [← heq] at happend
      exact happend

/-- A completed job hands over its count. -/
theorem Counting.done (h : a.Counting) {n : Nat} {r : JobResult}
    (htask : a.tasks[n]? = some (.done r)) : a.Accounts (.resume n) 0 := by
  have happly : a.apply (.resume n) =
      { controller := a.controller.finish r, tasks := a.tasks.eraseIdx n } := by
    simp [AtWork.apply, htask]
  obtain ⟨hn, hget⟩ := List.getElem?_eq_some_iff.1 htask
  have hsplit := (List.getElem_cons_eraseIdx_perm hn).symm
  refine ⟨?_, ?_, ?_⟩
  · rw [happly]
    refine EventSource.refused_of_calls_eq ?_
    show (a.controller.finish r).writer.source.calls = _
    rw [Controller.writer_finish]
    rfl
  -- the count leaves the jobs under way and goes to the counter
  · rw [happly, pending_of_perm hsplit (a.controller.finish r), hget]
    simp [completes, htask, PeriodTask.result?, PeriodTask.counted]
  · rw [happly]
    exact fun t ht => h t (List.mem_of_mem_eraseIdx ht)

/-- A job counts the call that it makes. -/
theorem Counting.step (h : a.Counting) {n : Nat} {t : PeriodTask JobResult}
    (htask : a.tasks[n]? = some t) (hstep : ∀ r, t ≠ .done r) : ∃ m, a.Accounts (.resume n) m := by
  have happly : a.apply (.resume n) =
      { controller := { a.controller with writer := (t.step a.controller.writer).2 }
        tasks := a.tasks.set n (t.step a.controller.writer).1 } := by
    cases t with
    | done r => exact absurd rfl (hstep r)
    | known | get | set => simp [AtWork.apply, htask]
  have hcompletes : a.completes (.resume n) = none := by
    cases t with
    | done r => exact absurd rfl (hstep r)
    | known | get | set => simp [completes, htask, PeriodTask.result?]
  obtain ⟨hn, hget⟩ := List.getElem?_eq_some_iff.1 htask
  have hsplit := (List.getElem_cons_eraseIdx_perm hn).symm
  have hsplit' := List.set_perm_cons_eraseIdx hn (t.step a.controller.writer).1
  obtain ⟨k, hcounts⟩ := h t (List.mem_of_getElem? htask)
  obtain ⟨m, hrefused, hcounts'⟩ := hcounts.step a.controller.writer
  refine ⟨m, ?_, ?_, ?_⟩
  · rw [happly]
    exact hrefused
  -- the other jobs keep their counts
  · rw [happly, hcompletes, pending_of_perm hsplit a.controller,
      pending_of_perm hsplit' a.controller, hget, hcounts.counted_eq, hcounts'.counted_eq]
    simp only [Option.elim_none]
    omega
  · rw [happly]
    intro t' ht'
    rcases List.mem_or_eq_of_mem_set ht' with ht' | rfl
    · exact h t' ht'
    · exact ⟨_, hcounts'⟩

/-- One step of the work. -/
theorem Counting.apply (h : a.Counting) (move : Move ι) : ∃ m, a.Accounts move m := by
  cases move with
  | op op => exact ⟨_, h.op op⟩
  | beginCycle last seen =>
      refine ⟨0, h.quiet ?_ rfl ?_⟩
      · rw [AtWork.apply]
        split
        · rfl
        · rfl
      · rw [AtWork.apply]
        split
        · exact .inr ⟨a.controller.cycleJob last seen, rfl⟩
        · exact .inl rfl
  | beginQuotaStep u =>
      refine ⟨0, h.quiet ?_ rfl ?_⟩
      · rw [AtWork.apply]
        split
        · exact congrArg PeriodWriter.source (Controller.writer_observe a.controller u)
        · rfl
      · rw [AtWork.apply]
        split
        · cases hmoved : (a.controller.observe u).1 with
          | true => exact .inr ⟨(a.controller.observe u).2.pushJob, by simp [hmoved]⟩
          | false => exact .inl (by simp [hmoved])
        · exact .inl rfl
  | resume n =>
      cases htask : a.tasks[n]? with
      | none =>
          have happly : a.apply (.resume n) = a := by simp [AtWork.apply, htask]
          exact ⟨0, h.quiet (by rw [happly]) (by simp [completes, htask]) (.inl (by rw [happly]))⟩
      | some t =>
          cases t with
          | done r => exact ⟨0, h.done htask⟩
          | known | get | set => exact h.step htask (by simp)

/-- The refused calls of a run are handed over or wait in the jobs under way. -/
theorem Counting.run (h : a.Counting) (moves : List (Move ι)) :
    ∃ m, a.controller.source.Refused m (a.run moves).controller.source ∧
      ((a.results moves).map JobResult.failed).sum + (a.run moves).pending = a.pending + m := by
  induction moves generalizing a with
  | nil => exact ⟨0, EventSource.refused_of_calls_eq rfl, by simp [results, AtWork.run]⟩
  | cons move moves ih =>
      obtain ⟨m, hmove⟩ := h.apply move
      obtain ⟨m', hrefused, hhanded⟩ := ih hmove.counting
      refine ⟨m + m', hmove.refused.trans hrefused, ?_⟩
      have hresults : ((a.results (move :: moves)).map JobResult.failed).sum =
          (a.completes move).elim 0 JobResult.failed +
            (((a.apply move).results moves).map JobResult.failed).sum := by
        rw [results]
        cases a.completes move with
        | none | some r => simp
      have hfirst := hmove.handed
      rw [hresults, run_cons]
      omega

omit [DecidableEq ι] [Resolver ρ ι] in
theorem pending_of_idle (h : a.tasks = []) : a.pending = 0 := by
  rw [pending, h]
  rfl

end AtWork

/-! ## Main result -/

/-- The start refuses nothing. From then on, whatever the loops do, call by call, and whatever the
source refuses and grants again: each refused read or write of a period is in the counter of such
failures or waits in a job under way to be handed over, and the other loop counter is the number of
completed cycles that could not meet their budget. All other counters change in the passes alone. -/
theorem failures_counted {ρ ι : Type} [DecidableEq ι] [Resolver ρ ι] {o : Options}
    {s : EventSource} {resolver : ρ} {c : Controller ρ ι}
    (h : Controller.init o s resolver = .ok c) (moves : List (AtWork.Move ι)) :
    let a : AtWork ρ ι := { controller := c }
    let d := (a.run moves).controller
    (∃ es : List LoggedCall, d.source.calls = c.source.calls ++ es.toArray ∧
      d.counters.periodFailures + (a.run moves).pending = es.countP LoggedCall.isPeriodFailure ∧
      ((a.run moves).tasks = [] →
        d.counters.periodFailures = es.countP LoggedCall.isPeriodFailure)) ∧
    d.counters.budgetInfeasible = (a.cycles moves).countP CycleResult.isInfeasible ∧
    (∀ move, (∀ quotaWindow reportWindow, move ≠ .op (.turn quotaWindow reportWindow)) →
      ((a.run moves).apply move).controller.counters.sampling = d.counters.sampling) ∧
    ∀ quotaWindow reportWindow,
      (d.turn quotaWindow reportWindow).counters.sampling =
        (if d.running then d.drainPass else d).counters.sampling := by
  intro a d
  have hcounters : c.counters = {} := (Controller.fresh_of_init h).counters
  have hcounting : a.Counting := by simp [a, AtWork.Counting]
  obtain ⟨m, ⟨es, hcalls, hcount⟩, hhanded⟩ := hcounting.run moves
  obtain ⟨hfailures, hinfeasible⟩ := a.ofJobs_run moves
  rw [show a.controller.counters = {} from hcounters] at hfailures hinfeasible
  have hstart : a.pending = 0 := AtWork.pending_of_idle rfl
  have htotal : d.counters.periodFailures + (a.run moves).pending =
      es.countP LoggedCall.isPeriodFailure := by
    rw [hcount, hfailures]
    simp only
    omega
  refine ⟨⟨es, hcalls, htotal, ?_⟩, ?_, ?_, ?_⟩
  · intro hidle
    rw [AtWork.pending_of_idle hidle] at htotal
    exact htotal
  · rw [hinfeasible]
    exact Nat.zero_add _
  · intro move hmove
    rw [AtWork.sampling_apply, AtWork.passed_of_not_turn _ hmove]
  · intro quotaWindow reportWindow
    exact (a.run moves).sampling_apply (.op (.turn quotaWindow reportWindow))

/-! ## Refusals that come and go -/

/-- Three classes take part; one of them cannot be read at first. -/
def failingSource : EventSource where
  cpus := [0]
  ringSize := 4096
  offers := fun _ c => c = .l3Hit || c = .dramRead || c = .nvmRead
  refuses := fun c op => c = .nvmRead && op = .period

/-- A cycle loses a read. Before it writes its last period, writes of that class are refused and a
quota step loses one, and then the cycle does. At last everything is granted again. -/
def healingWork : List (AtWork.Move UInt64) :=
  .beginCycle (.replicate 0) (fun _ => .empty 4) :: .replicate 13 (.resume 0) ++
  [.op (.refuse .dramRead .setPeriod true),
    .op (.turn (some { spent := .ofParts 1 0, elapsed := .ofParts 1 0 }) none),
    .resume 0, .resume 0, .op (.refuse .nvmRead .period false),
    .op (.refuse .dramRead .setPeriod false), .op .adapt]

theorem failures_counted_healingWork :
    let directory : PageDirectory := {}
    ∃ c, Controller.init (ι := UInt64) {} failingSource directory = .ok c ∧
      let d := (AtWork.run { controller := c } healingWork).controller
      d.counters.periodFailures = 3 ∧
        ∃ es : List LoggedCall, d.source.calls = c.source.calls ++ es.toArray ∧
          es.countP LoggedCall.isPeriodFailure = 3 := by
  intro directory
  have hinit : Controller.init (ι := UInt64) {} failingSource directory =
      .ok (Controller.started {} failingSource directory) :=
    Controller.init_of_granted (by decide) (by decide)
  obtain ⟨⟨es, hcalls, -, hidle⟩, -⟩ := failures_counted hinit healingWork
  have hthree : (AtWork.run { controller := Controller.started {} failingSource directory }
      healingWork).controller.counters.periodFailures = 3 := by decide +kernel
  have htotal := hidle (by decide +kernel)
  exact ⟨_, hinit, hthree, es, hcalls, htotal.symm.trans hthree⟩

end AccessSampling
