import AccessSampling.Proofs.JobCalls

/-!
# Which classes the loops touch

A class may be fixed by the options, it may be of the fixed tier, and it may have no ring on any
CPU. Whatever combination it is: from the start to the shutdown the source is asked only about
classes that the options leave free and that have a ring, and a quota step writes to those of them
alone that have a coarse period. So the periods of the other classes stay as the start has left
them.
-/

namespace AccessSampling

/-- The loops may retune a class if the options do not fix it and it has a ring on some CPU. -/
structure Retunable (o : Options) (s : EventSource) (c : EventClass) : Prop where
  free : (o.classes.get c).fixed = false
  available : s.isAvailable c = true

/-- A read or a write of the period of a class that the loops may retune. -/
def SourceCall.IsPeriodCall (o : Options) (s : EventSource) (call : SourceCall) : Prop :=
  (call.op = .period ∨ call.op = .setPeriod) ∧ Retunable o s call.cls

/-- A write of the period that the table of a class's tier has at a step, to a class that the loops
may retune. -/
def SourceCall.IsCoarseWrite (o : Options) (s : EventSource) (step : Nat) (call : SourceCall) :
    Prop :=
  ∃ cls p, call = .setPeriod cls p ∧ Retunable o s cls ∧ cls.tier ≠ .fixed ∧
    o.quota.period? cls.tier step = some p

namespace Controller

variable {ρ ι : Type} {o : Options} {s : EventSource} {resolver : ρ} {c : Controller ρ ι}

/-! ## The classes of the loops -/

theorem mem_adaptive_of_init (h : init o s resolver = .ok c) {cls : EventClass} :
    cls ∈ c.loop.adaptive ↔ Retunable o s cls := by
  obtain ⟨-, -, rfl⟩ := eq_started_of_init h
  simp only [started, List.mem_filter, Options.mem_adaptiveClasses, mem_available,
    decide_eq_true_eq]
  exact ⟨fun hcls => ⟨hcls.1, hcls.2⟩, fun hcls => ⟨hcls.free, hcls.available⟩⟩

theorem isPeriodCall_of_tunes (h : init o s resolver = .ok c) {call : SourceCall}
    (hcall : call.Tunes c.loop.adaptive) : call.IsPeriodCall o s := by
  cases call with
  | period cls => exact ⟨.inl rfl, (mem_adaptive_of_init h).1 hcall⟩
  | setPeriod cls p => exact ⟨.inr rfl, (mem_adaptive_of_init h).1 hcall⟩
  | openRing | enable | disable => cases hcall

theorem isCoarseWrite_of_coarsens (h : init o s resolver = .ok c) {call : SourceCall} {step : Nat}
    (hcall : call.Coarsens c.loop.adaptive c.options.quota step) :
    call.IsCoarseWrite o s step := by
  have htier := hcall.tier_ne_fixed
  cases call with
  | setPeriod cls p =>
      rw [(fresh_of_init h).options] at hcall
      exact ⟨cls, p, rfl, (mem_adaptive_of_init h).1 hcall.1, htier, hcall.2⟩
  | openRing | enable | disable | period => cases hcall

/-! ## A quota step -/

variable [DecidableEq ι]

omit [DecidableEq ι] in
/-- The coarse periods are pushed only after the coarse index has moved. -/
theorem index_observe_ne (c : Controller ρ ι) {u : Usage} (h : (c.observe u).1 = true) :
    (c.observe u).2.quota.index ≠ c.quota.index := by
  by_cases hoff : c.options.quota.cpuPermil = 0
  · simp [observe, hoff] at h
  · simp only [observe, hoff, if_false, QuotaLoop.observe] at h ⊢
    split
    · simp
    · split
      · simp only
        omega
      · simp_all

omit [DecidableEq ι] in
theorem quota_finish (c : Controller ρ ι) (r : JobResult) : (c.finish r).quota = c.quota := by
  cases r with
  | cycle | push => rfl

/-- A quota step writes coarse periods at the index that it has moved to. -/
theorem receivedOnly_quotaStep (c : Controller ρ ι) (u : Usage) :
    (c.quotaStep u).source.ReceivedOnly
        (SourceCall.Coarsens c.loop.adaptive c.options.quota (c.quotaStep u).quota.index)
        c.source.calls ∧
      ((c.quotaStep u).source.calls ≠ c.source.calls →
        (c.quotaStep u).quota.index ≠ c.quota.index) := by
  have hsource : (c.observe u).2.source = c.source :=
    congrArg PeriodWriter.source (writer_observe c u)
  rw [quotaStep_eq_complete]
  split
  · rename_i hmoved
    have hindex : ((c.observe u).2.complete (c.observe u).2.pushJob).quota =
        (c.observe u).2.quota := quota_finish ..
    have hsetup := c.sameSetup_observe u
    have hpush := (callsOnly_pushJob (c.observe u).2).receivedOnly_run (c.observe u).2.writer
    rw [hsetup.adaptive, hsetup.options] at hpush
    constructor
    · rw [hindex, ← hsource]
      show ((c.observe u).2.complete _).writer.source.ReceivedOnly _ _
      rw [writer_complete]
      exact hpush
    · intro _
      rw [hindex]
      exact c.index_observe_ne hmoved
  · rw [hsource]
    exact ⟨EventSource.receivedOnly_refl .., fun hne => absurd rfl hne⟩

/-- A turn calls the source in its quota step only. -/
theorem receivedOnly_turn [Resolver ρ ι] (c : Controller ρ ι)
    (quotaWindow reportWindow : Option Usage) :
    (c.turn quotaWindow reportWindow).source.ReceivedOnly
        (SourceCall.Coarsens c.loop.adaptive c.options.quota
          (c.turn quotaWindow reportWindow).quota.index)
        c.source.calls ∧
      ((c.turn quotaWindow reportWindow).source.calls ≠ c.source.calls →
        (c.turn quotaWindow reportWindow).quota.index ≠ c.quota.index) := by
  rw [c.view_turn (fun d => d.source.ReceivedOnly
      (SourceCall.Coarsens c.loop.adaptive c.options.quota d.quota.index) c.source.calls ∧
    (d.source.calls ≠ c.source.calls → d.quota.index ≠ c.quota.index)) fun _ _ => rfl]
  split
  · cases quotaWindow with
    | none => exact ⟨EventSource.receivedOnly_refl .., fun hne => absurd rfl hne⟩
    | some u => exact c.drainPass.receivedOnly_quotaStep u
  · exact ⟨EventSource.receivedOnly_refl .., fun hne => absurd rfl hne⟩

end Controller

namespace AtWork

variable {ρ ι : Type} [DecidableEq ι] [Resolver ρ ι] {o : Options} {s : EventSource} {resolver : ρ}
  {c : Controller ρ ι} {moves : List (Move ι)}

/-! ## The work before the shutdown -/

/-- Before the shutdown the loops only read and write periods of classes that they may retune. -/
theorem keeps_receivedOnly (h : Controller.init o s resolver = .ok c)
    (hmoves : .op .shutdown ∉ moves) :
    Keeps c (fun w => w.source.ReceivedOnly (SourceCall.IsPeriodCall o s) c.source.calls)
      (run { controller := c } moves) := by
  have hstart : Keeps c
      (fun w => w.source.ReceivedOnly (SourceCall.IsPeriodCall o s) c.source.calls)
      { controller := c } :=
    ⟨.refl c, EventSource.receivedOnly_refl .., by simp⟩
  refine hstart.run (Controller.keptByJobs_of_tunes ?_ ?_) ?_
  · intro w cls hcls hw
    have hcall : SourceCall.IsPeriodCall o s (.period cls) :=
      Controller.isPeriodCall_of_tunes h hcls
    rw [PeriodWriter.source_get]
    exact hw.perform hcall
  · intro w cls hcls p hw
    have hcall : SourceCall.IsPeriodCall o s (.setPeriod cls p) :=
      Controller.isPeriodCall_of_tunes h hcls
    rw [PeriodWriter.source_set]
    exact hw.perform hcall
  · intro op hop
    cases op with
    | shutdown => exact absurd hop hmoves
    | refuse | override => exact fun w hw => hw
    | push | turn | adapt => trivial

/-- The period of a class that the loops may not retune stays, unless someone else sets it. -/
theorem keeps_period (h : Controller.init o s resolver = .ok c) {cls : EventClass}
    (hcls : ¬Retunable o s cls) (hmoves : ∀ p, .op (.override cls p) ∉ moves) :
    Keeps c (fun w => w.source.periods.get cls = c.source.periods.get cls)
      (run { controller := c } moves) := by
  have hstart : Keeps c (fun w => w.source.periods.get cls = c.source.periods.get cls)
      { controller := c } :=
    ⟨.refl c, rfl, by simp⟩
  refine hstart.run (Controller.keptByJobs_of_tunes ?_ ?_) ?_
  · intro w d _ hw
    rw [PeriodWriter.source_get, EventSource.periods_perform_of_ne (by simp), hw]
  · intro w d hd p hw
    have hne : d ≠ cls := by
      rintro rfl
      exact hcls ((Controller.mem_adaptive_of_init h).1 hd)
    rw [PeriodWriter.source_set, EventSource.periods_perform_of_ne (by simp [hne]), hw]
  · intro op hop
    cases op with
    | shutdown =>
        intro w d hw
        show (w.source.perform (.disable d)).periods.get cls = _
        rw [EventSource.periods_perform_of_ne (by simp), hw]
    | override d p =>
        intro w hw
        have hne : cls ≠ d := by
          rintro rfl
          exact hmoves p hop
        show (w.source.periods.set d p).get cls = _
        rw [PerClass.get_set_of_ne _ _ hne, hw]
    | refuse => exact fun w hw => hw
    | push | turn | adapt => trivial

end AtWork

/-! ## Main result -/

/-- From a start to the shutdown, whatever the loops do, call by call, and whatever the source
refuses: the source is asked only to read and write the periods of classes that the options leave
free and that have a ring. A quota step, in one go as part of a turn or begun as a job, only writes
the coarse periods at the index that it has moved to, and only to classes of a tier that is not
fixed. So a class that is fixed or that has no ring keeps its period, unless someone else sets
it. -/
theorem only_retunable_called {ρ ι : Type} [DecidableEq ι] [Resolver ρ ι] {o : Options}
    {s : EventSource} {resolver : ρ} {c : Controller ρ ι}
    (h : Controller.init o s resolver = .ok c) {moves : List (AtWork.Move ι)}
    (hmoves : .op .shutdown ∉ moves) :
    let d := (AtWork.run { controller := c } moves).controller
    d.source.ReceivedOnly (SourceCall.IsPeriodCall o s) c.source.calls ∧
    (∀ quotaWindow reportWindow,
      let e := d.turn quotaWindow reportWindow
      e.source.ReceivedOnly (SourceCall.IsCoarseWrite o s e.quota.index) d.source.calls ∧
      (e.source.calls ≠ d.source.calls → e.quota.index ≠ d.quota.index)) ∧
    (∀ u, (d.observe u).2.pushJob.task.CallsOnly
      (SourceCall.IsCoarseWrite o s (d.observe u).2.quota.index) fun _ => True) ∧
    ∀ cls, ¬Retunable o s cls → (∀ p, .op (.override cls p) ∉ moves) →
      d.source.periods.get cls = c.source.periods.get cls := by
  intro d
  have hkeeps := AtWork.keeps_receivedOnly h hmoves
  have hadaptive : d.loop.adaptive = c.loop.adaptive := hkeeps.setup.adaptive
  have hoptions : d.options = c.options := hkeeps.setup.options
  refine ⟨hkeeps.writer, ?_, ?_, ?_⟩
  · intro quotaWindow reportWindow e
    obtain ⟨hcalls, hindex⟩ := d.receivedOnly_turn quotaWindow reportWindow
    rw [hadaptive, hoptions] at hcalls
    exact ⟨hcalls.imp fun _ hcall => Controller.isCoarseWrite_of_coarsens h hcall, hindex⟩
  · intro u
    have hsetup := d.sameSetup_observe u
    have hpush := (d.observe u).2.callsOnly_pushJob
    rw [hsetup.adaptive, hsetup.options, hadaptive, hoptions] at hpush
    exact hpush.imp fun _ hcall => Controller.isCoarseWrite_of_coarsens h hcall
  · intro cls hcls hoverride
    exact (AtWork.keeps_period h hcls hoverride).writer

/-! ## Options against the tiers -/

/-- Hits of the second level are free although their tier is fixed, and reads of fast memory are
fixed although their tier is not. -/
def crossedOptions : Options :=
  { classes := ((PerClass.ofFn fun c => .ofTier c.tier).set .l2Hit {}).set .dramRead
      { fixed := true } }

/-- Reads of slow memory have no ring, and periods of stores cannot be read. -/
def partialSource : EventSource where
  cpus := [0, 1]
  ringSize := 4096
  offers := fun _ c => c ≠ .nvmRead
  refuses := fun c op => c = .memWrite && op = .period

/-- A push begins within a cycle, and a turn comes after both. -/
def crossedWork : List (AtWork.Move UInt64) :=
  [.beginCycle (.replicate 0) fun _ => .empty 4, .resume 0, .resume 0,
    .beginQuotaStep { spent := .ofParts 1 0, elapsed := .ofParts 1 0 }] ++
  .replicate 9 (.resume 1) ++ .op (.refuse .l2Hit .setPeriod true) :: .replicate 24 (.resume 0) ++
  [.op (.turn (some { spent := .ofParts 1 0, elapsed := .ofParts 1 0 }) none), .op .adapt]

theorem only_retunable_called_crossedWork :
    let directory : PageDirectory := {}
    ∃ c, Controller.init (ι := UInt64) crossedOptions partialSource directory = .ok c ∧
      .op .shutdown ∉ crossedWork ∧
      let d := (AtWork.run { controller := c } crossedWork).controller
      d.source.ReceivedOnly (SourceCall.IsPeriodCall crossedOptions partialSource)
        c.source.calls ∧
      d.source.periods.get .dramRead = 5000 ∧ d.source.periods.get .nvmRead = 0 := by
  intro directory
  have hinit : Controller.init (ι := UInt64) crossedOptions partialSource directory =
      .ok (Controller.started crossedOptions partialSource directory) :=
    Controller.init_of_granted (by decide) (by decide)
  have hmoves : .op .shutdown ∉ crossedWork := by simp [crossedWork]
  obtain ⟨hcalls, -, -, hperiods⟩ := only_retunable_called hinit hmoves
  have hdram : ¬Retunable crossedOptions partialSource .dramRead := fun hr =>
    absurd hr.free (by decide)
  have hnvm : ¬Retunable crossedOptions partialSource .nvmRead := fun hr =>
    absurd hr.available (by decide)
  refine ⟨_, hinit, hmoves, hcalls, ?_, ?_⟩
  · rw [hperiods .dramRead hdram (by simp [crossedWork])]
    decide
  · rw [hperiods .nvmRead hnvm (by simp [crossedWork])]
    decide

end AccessSampling
