import AccessSampling.Proofs.CompletedJobs
import AccessSampling.Proofs.JobCalls

/-!
# Shutting down

The first shutdown asks the source to disable each class that was enabled, one after the other and
whatever it answers. Then it takes the scores and only after that it clears the heaps, so what is
left behind tells of the whole run. Nothing that a host asks of the controller later changes it any
more.
-/

namespace AccessSampling

namespace Controller

variable {ρ ι : Type}

/-! ## Requests -/

/-- What a host may ask of a controller. -/
inductive Request where
  | adaptNow
  | snapshot
  | metrics
  | shutdown
  /-- The host lets go of the controller. -/
  | drop
  deriving DecidableEq, Repr

/-- What a controller answers. -/
inductive Answer where
  /-- What the cycle came to, if there was one. -/
  | cycle (cycle : Option Cycle)
  | snapshot (view : PerClass ClassSnapshot)
  | metrics (metrics : PerClass Metrics)
  | nothing

section Requests

variable [DecidableEq ι]

def serve (c : Controller ρ ι) : Request → Answer × Controller ρ ι
  | .adaptNow => (.cycle c.adapt.1, c.adapt.2)
  | .snapshot => (.snapshot c.snapshot, c)
  | .metrics => (.metrics c.metrics, c)
  | .shutdown | .drop => (.nothing, c.shutdown)

def serveAll (c : Controller ρ ι) (rs : List Request) : Controller ρ ι :=
  rs.foldl (fun c r => (c.serve r).2) c

theorem serve_of_stopped {c : Controller ρ ι} (h : c.running = false) (r : Request) :
    (c.serve r).2 = c := by
  cases r with
  | adaptNow => rw [serve, adapt_of_stopped h]
  | snapshot | metrics => rfl
  | shutdown | drop => rw [serve, shutdown, if_neg (by simp [h])]

theorem serveAll_of_stopped {c : Controller ρ ι} (h : c.running = false) (rs : List Request) :
    c.serveAll rs = c := by
  induction rs with
  | nil => rfl
  | cons r rs ih =>
      show (c.serve r).2.serveAll rs = c
      rw [serve_of_stopped h, ih]

end Requests

/-! ## The first shutdown -/

section First

variable [DecidableEq ι] {c : Controller ρ ι}

/-- The steps of a shutdown, in order. -/
theorem shutdown_of_running (h : c.running = true) :
    c.shutdown =
      (modifySource { c with running := false } (stopClasses c.enabled)).rescore.clearHeaps := by
  rw [shutdown, if_pos h]

theorem running_shutdown (c : Controller ρ ι) : c.shutdown.running = false := by
  cases h : c.running with
  | true =>
      rw [shutdown_of_running h]
      rfl
  | false =>
      rw [shutdown, if_neg (by simp [h])]
      exact h

theorem source_shutdown (h : c.running = true) :
    c.shutdown.source = c.source.performAll (c.enabled.map .disable) := by
  rw [shutdown_of_running h, ← stopClasses_eq]
  rfl

/-- The scores are those of the heaps before they are cleared. -/
theorem metrics_shutdown (h : c.running = true) (cls : EventClass) :
    c.shutdown.metrics.get cls =
      { c.tally.metrics c.options.score cls with
        targetPeriod := (c.metrics.get cls).targetPeriod
        smoothedPeriod := (c.metrics.get cls).smoothedPeriod
        currentPeriod := c.writer.known.get cls } := by
  rw [shutdown_of_running h]
  exact PerClass.get_ofFn ..

theorem drain_shutdown (h : c.running = true) :
    c.shutdown.drain =
      { c.drain with intake := { c.drain.intake with tally := c.tally.clearHeaps } } := by
  rw [shutdown_of_running h]
  rfl

end First

/-! ## What the start has enabled -/

section Start

variable {o : Options} {s : EventSource} {resolver : ρ} {c : Controller ρ ι}

/-- The classes that are to be disabled are those that the start has enabled, each of them once. -/
theorem enabled_of_init (h : init o s resolver = .ok c) :
    (∃ es : List LoggedCall, c.source.calls = s.calls ++ es.toArray ∧
      c.enabled = enabledBy (es.map LoggedCall.call)) ∧ c.enabled.Nodup := by
  obtain ⟨-, -, rfl⟩ := eq_started_of_init h
  refine ⟨⟨(startup o s).map s.entry, EventSource.calls_performAll .., ?_⟩, ?_⟩
  · have hcalls : ((startup o s).map s.entry).map LoggedCall.call = startup o s := by
      rw [List.map_map]
      exact List.map_id _
    rw [hcalls, enabledBy_startup]
    rfl
  · exact EventClass.nodup_all.filter _

theorem source_enabled_of_init (h : init o s resolver = .ok c) (cls : EventClass) :
    c.source.enabled.get cls = true ↔ s.enabled.get cls = true ∨ cls ∈ c.enabled := by
  obtain ⟨-, hgranted, rfl⟩ := eq_started_of_init h
  show (s.performAll (startup o s)).enabled.get cls = true ↔ _
  rw [EventSource.enabled_performAll hgranted fun _ => op_ne_disable, ← mem_enabledBy,
    enabledBy_startup]
  rfl

end Start

end Controller

/-- Before the shutdown no class is enabled or disabled. -/
theorem AtWork.keeps_enabled {ρ ι : Type} [DecidableEq ι] [Resolver ρ ι] (c : Controller ρ ι)
    {moves : List (Move ι)} (hmoves : .op .shutdown ∉ moves) :
    Keeps c (fun w => w.source.enabled = c.source.enabled) (run { controller := c } moves) := by
  have hstart : Keeps c (fun w => w.source.enabled = c.source.enabled) { controller := c } :=
    ⟨.refl c, rfl, by simp⟩
  refine hstart.run (Controller.keptByJobs_of_tunes ?_ ?_) ?_
  · intro w cls _ hw
    rw [PeriodWriter.source_get]
    exact (ite_self _).trans hw
  · intro w cls _ p hw
    rw [PeriodWriter.source_set]
    exact (ite_self _).trans hw
  · intro op hop
    cases op with
    | shutdown => exact absurd hop hmoves
    | refuse | override => exact fun w hw => hw
    | push | turn | adapt => trivial

/-! ## Main result -/

/-- The first shutdown, asked for or by letting go, after whatever the loops did, call by call. Each
class that the start has enabled is disabled by one call, in order, and those that refuse stay
enabled; no other call is made. The heaps are empty then, but the metrics have the scores of what
was in them, the target and smoothed periods of the latest cycle and the periods that are known.
Sample counters, items, diagnostics and periods stay. Afterwards no request changes anything. -/
theorem shutdown_once {ρ ι : Type} [DecidableEq ι] [Resolver ρ ι] {o : Options} {s : EventSource}
    {resolver : ρ} {c : Controller ρ ι} (h : Controller.init o s resolver = .ok c)
    {moves : List (AtWork.Move ι)} (hmoves : .op .shutdown ∉ moves) {r : Controller.Request}
    (hr : r = .shutdown ∨ r = .drop) :
    let a : AtWork ρ ι := { controller := c }
    let d := (a.run moves).controller
    let latest := ((a.cycles moves).map CycleResult.metrics).getLastD (.replicate {})
    let d' := (d.serve r).2
    (∃ es : List LoggedCall, c.source.calls = s.calls ++ es.toArray ∧
      c.enabled = Controller.enabledBy (es.map LoggedCall.call)) ∧
    c.enabled.Nodup ∧
    d'.source.calls =
      d.source.calls ++ (c.enabled.map fun cls => d.source.entry (.disable cls)).toArray ∧
    (∀ cls, d'.source.enabled.get cls = true ↔
      if cls ∈ c.enabled then d.source.refuses cls .disable = true
      else s.enabled.get cls = true) ∧
    (∀ cls, (d'.tally.heaps.get cls).entries = #[]) ∧
    (∀ cls, d'.metrics.get cls =
      { d.tally.metrics o.score cls with
        targetPeriod := (latest.get cls).targetPeriod
        smoothedPeriod := (latest.get cls).smoothedPeriod
        currentPeriod := d.writer.known.get cls }) ∧
    d'.tally.samples = d.tally.samples ∧
    d'.tally.stats = d.tally.stats ∧
    d'.drain.intake.resolver = d.drain.intake.resolver ∧
    d'.counters = d.counters ∧
    d'.source.periods = d.source.periods ∧
    d'.writer.known = d.writer.known ∧
    (d'.serve .adaptNow).1 = .cycle none ∧
    ∀ rs, d'.serveAll rs = d' := by
  intro a d latest d'
  have hserve : d' = d.shutdown := by
    rcases hr with rfl | rfl
    · rfl
    · rfl
  have hkeeps := AtWork.keeps_enabled c hmoves
  have hsetup : c.SameSetup d := hkeeps.setup
  have hfresh := Controller.fresh_of_init h
  obtain ⟨hmetrics, hrun⟩ := a.metrics_run hmoves
  have hd : d.running = true := hrun.trans hfresh.running
  have hlatest : d.metrics = latest := by
    rw [hmetrics, show a.controller.metrics = .replicate {} from hfresh.metrics]
  have hsource := Controller.source_shutdown hd
  have hdrain := Controller.drain_shutdown hd
  rw [hsetup.enabled] at hsource
  obtain ⟨hcalls, hnodup⟩ := Controller.enabled_of_init h
  rw [hserve]
  refine ⟨hcalls, hnodup, ?_, ?_, ?_, ?_, ?_, ?_, ?_, ?_, ?_, ?_, ?_, ?_⟩
  · rw [hsource, EventSource.calls_performAll, List.map_map]
    rfl
  -- a class is enabled if the start found it so or has made it so, and not disabled
  · intro cls
    have henabled : d.source.enabled = c.source.enabled := hkeeps.writer
    rw [hsource, EventSource.enabled_performAll_disable, henabled,
      Controller.source_enabled_of_init h]
    by_cases hcls : cls ∈ c.enabled
    · simp [hcls]
    · simp [hcls]
  · intro cls
    rw [Controller.tally, hdrain]
    simp [Tally.clearHeaps]
  · intro cls
    rw [Controller.metrics_shutdown hd, hlatest, hsetup.options, hfresh.options]
  · rw [Controller.tally, hdrain]
    rfl
  · rw [Controller.tally, hdrain]
    rfl
  · rw [hdrain]
  · rw [Controller.counters, hdrain]
    rfl
  · rw [hsource, EventSource.periods_performAll]
    simp [SourceCall.op]
  · rw [Controller.shutdown_of_running hd]
    rfl
  · rw [Controller.serve, Controller.adapt_of_stopped d.running_shutdown]
  · exact Controller.serveAll_of_stopped d.running_shutdown

/-! ## A stubborn class -/

/-- Stores cannot be disabled, and reads of slow memory have no ring. -/
def clingingSource : EventSource where
  cpus := [0]
  ringSize := 4096
  offers := fun _ c => c ≠ .nvmRead
  refuses := fun c op => c = .memWrite && op = .disable

/-- Two samples of one page, a cycle after the first pass and another pass. -/
def sampledWork : List (AtWork.Move UInt64) :=
  [.op (.push 0 .memWrite [.sample ⟨1, ⟨1, 1⟩, 5, 0x1000⟩, .sample ⟨1, ⟨1, 1⟩, 7, 0x1008⟩]),
    .op (.turn none none), .op .adapt, .op (.turn none none)]

theorem shutdown_once_sampledWork :
    let directory : PageDirectory := {}
    ∃ c, Controller.init (ι := UInt64) {} clingingSource directory = .ok c ∧
      let d := (AtWork.run { controller := c } sampledWork).controller
      let d' := (d.serve .drop).2
      d'.source.enabled.get .memWrite = true ∧ d'.source.enabled.get .dramRead = false ∧
        (d'.tally.heaps.get .memWrite).entries = #[] ∧
        (d'.metrics.get .memWrite).hotness = 200 ∧
        d'.serveAll [.adaptNow, .snapshot, .shutdown, .metrics, .drop] = d' := by
  intro directory
  have hinit : Controller.init (ι := UInt64) {} clingingSource directory =
      .ok (Controller.started {} clingingSource directory) :=
    Controller.init_of_granted (by decide) (by decide)
  have hmoves : .op .shutdown ∉ sampledWork := by simp [sampledWork]
  obtain ⟨-, -, -, henabled, hheaps, hmetrics, -, -, -, -, -, -, -, hlater⟩ :=
    shutdown_once hinit hmoves (.inr rfl)
  refine ⟨_, hinit, ?_, ?_, hheaps .memWrite, ?_, hlater _⟩
  · rw [henabled .memWrite]
    decide +kernel
  · rw [Bool.eq_false_iff]
    intro hdram
    rw [henabled .dramRead] at hdram
    revert hdram
    decide +kernel
  · rw [hmetrics .memWrite]
    decide +kernel

end AccessSampling
