import AccessSampling.Proofs.ControllerAtWork

/-!
# Known periods

The writer takes note of a period in the same call that writes or reads it. So whatever jobs share
the writer, and whichever of their calls are refused, the period that is known of a class is the one
of the source from the first granted call on.
-/

namespace AccessSampling

/-- Whether an entry makes the period of a class known. -/
def LoggedCall.tells (c : EventClass) : LoggedCall → Bool
  | { call := .setPeriod c' _, granted } | { call := .period c', granted } => granted && c' = c
  | _ => false

theorem LoggedCall.of_tells_entry {s : EventSource} {call : SourceCall} {c : EventClass}
    (h : (s.entry call).tells c = true) : s.refuses call.cls call.op = false ∧ call.cls = c := by
  cases call with
  | setPeriod | period =>
      simp only [EventSource.entry, LoggedCall.tells, Bool.and_eq_true, Bool.not_eq_true',
        decide_eq_true_eq] at h
      exact h
  | openRing | enable | disable => cases h

namespace PeriodWriter

/-! ## One call -/

/-- The writer knows the period of a class. -/
def Knows (w : PeriodWriter) (c : EventClass) : Prop := w.known.get c = w.source.periods.get c

section OneCall

variable (w : PeriodWriter) (c d : EventClass) (p : Nat)

theorem periods_set : (w.set c p).2.source.periods.get d =
    if d = c ∧ w.source.refuses c .setPeriod = false then p else w.source.periods.get d := by
  cases h : w.source.refuses c .setPeriod with
  | true =>
      rw [set_of_refused h]
      simp [EventSource.logged]
  | false =>
      rw [set_of_granted h]
      simp [PerClass.get_set]

theorem known_set : (w.set c p).2.known.get d =
    if d = c ∧ w.source.refuses c .setPeriod = false then p else w.known.get d := by
  cases h : w.source.refuses c .setPeriod with
  | true =>
      rw [set_of_refused h]
      simp
  | false =>
      rw [set_of_granted h]
      simp [PerClass.get_set]

theorem periods_get : (w.get c).2.source.periods = w.source.periods := by
  cases h : w.source.refuses c .period with
  | true =>
      rw [get_of_refused h]
      rfl
  | false =>
      rw [get_of_granted h]
      rfl

theorem known_get : (w.get c).2.known.get d =
    if d = c ∧ w.source.refuses c .period = false then w.source.periods.get c
    else w.known.get d := by
  cases h : w.source.refuses c .period with
  | true =>
      rw [get_of_refused h]
      simp
  | false =>
      rw [get_of_granted h]
      simp [PerClass.get_set]

end OneCall

section Knows

variable {w : PeriodWriter} {c d : EventClass}

theorem Knows.set (h : w.Knows d) (c : EventClass) (p : Nat) : (w.set c p).2.Knows d := by
  rw [Knows, known_set, periods_set, h]

theorem Knows.get (h : w.Knows d) (c : EventClass) : (w.get c).2.Knows d := by
  rw [Knows, known_get, periods_get, h]
  split
  · rename_i hc
    rw [hc.1]
  · rfl

/-- A granted write makes the period known. -/
theorem knows_set (h : w.source.refuses c .setPeriod = false) (p : Nat) :
    (w.set c p).2.Knows c := by
  rw [Knows, known_set, periods_set, if_pos ⟨rfl, h⟩, if_pos ⟨rfl, h⟩]

/-- A granted read makes the period known. -/
theorem knows_get (h : w.source.refuses c .period = false) : (w.get c).2.Knows c := by
  rw [Knows, known_get, periods_get, if_pos ⟨rfl, h⟩]

end Knows

/-- What comes of a call. A granted one succeeds, is logged as granted and makes the period known. A
refused one is answered with the refusal, is logged as refused and changes neither what is known nor
what the source has. -/
structure Outcomes (w : PeriodWriter) : Prop where
  set_granted : ∀ c p, w.source.refuses c .setPeriod = false →
    (w.set c p).1 = .ok () ∧
      (w.set c p).2.source.calls =
        w.source.calls.push { call := .setPeriod c p, granted := true } ∧
      (w.set c p).2.known = w.known.set c p ∧
      (w.set c p).2.source.periods = w.source.periods.set c p
  set_refused : ∀ c p, w.source.refuses c .setPeriod = true →
    (w.set c p).1 = .error { cls := c, op := .setPeriod } ∧
      (w.set c p).2.source.calls =
        w.source.calls.push { call := .setPeriod c p, granted := false } ∧
      (w.set c p).2.known = w.known ∧ (w.set c p).2.source.periods = w.source.periods
  get_granted : ∀ c, w.source.refuses c .period = false →
    (w.get c).1 = .ok (w.source.periods.get c) ∧
      (w.get c).2.source.calls = w.source.calls.push { call := .period c, granted := true } ∧
      (w.get c).2.known = w.known.set c (w.source.periods.get c) ∧
      (w.get c).2.source.periods = w.source.periods
  get_refused : ∀ c, w.source.refuses c .period = true →
    (w.get c).1 = .error { cls := c, op := .period } ∧
      (w.get c).2.source.calls = w.source.calls.push { call := .period c, granted := false } ∧
      (w.get c).2.known = w.known ∧ (w.get c).2.source.periods = w.source.periods

theorem outcomes (w : PeriodWriter) : w.Outcomes where
  set_granted := fun c p h => by
    rw [set_of_granted h]
    exact ⟨rfl, EventSource.calls_logged_of_granted h, rfl, rfl⟩
  set_refused := fun c p h => by
    rw [set_of_refused h]
    exact ⟨rfl, EventSource.calls_logged_of_refused h, rfl, rfl⟩
  get_granted := fun c h => by
    rw [get_of_granted h]
    exact ⟨rfl, EventSource.calls_logged_of_granted h, rfl, rfl⟩
  get_refused := fun c h => by
    rw [get_of_refused h]
    exact ⟨rfl, EventSource.calls_logged_of_refused h, rfl, rfl⟩

/-! ## A history of calls -/

/-- What is known and what the source has after some calls. -/
structure After (w : PeriodWriter) (es : List LoggedCall) (w' : PeriodWriter) : Prop where
  calls : w'.source.calls = w.source.calls ++ es.toArray
  knows : ∀ c, (∃ e ∈ es, e.tells c = true) → w'.Knows c
  periods : ∀ c, w'.source.periods.get c = (lastProgrammed? c es).getD (w.source.periods.get c)

theorem after_nil (w : PeriodWriter) : w.After [] w where
  calls := by simp
  knows := by simp
  periods := fun c => rfl

section After

variable {w w' : PeriodWriter} {es : List LoggedCall}

theorem After.periods_append (h : w.After es w') (call : SourceCall) (c : EventClass) :
    (w'.source.perform call).periods.get c =
      (lastProgrammed? c (es ++ [w'.source.entry call])).getD (w.source.periods.get c) := by
  rw [EventSource.periods_perform, h.periods, lastProgrammed?_append_singleton]
  cases (w'.source.entry call).programmed? c with
  | none | some => rfl

theorem After.calls_append (h : w.After es w') (call : SourceCall) :
    (w'.source.perform call).calls =
      w.source.calls ++ (es ++ [w'.source.entry call]).toArray := by
  rw [EventSource.calls_perform, h.calls]
  simp

theorem After.knows_append (h : w.After es w') {call : SourceCall} {w'' : PeriodWriter}
    (hold : ∀ d, w'.Knows d → w''.Knows d)
    (hnew : w'.source.refuses call.cls call.op = false → w''.Knows call.cls) (d : EventClass)
    (hd : ∃ e ∈ es ++ [w'.source.entry call], e.tells d = true) : w''.Knows d := by
  obtain ⟨e, he, htells⟩ := hd
  rcases List.mem_append.1 he with he | he
  · exact hold d (h.knows d ⟨e, he, htells⟩)
  · rw [List.mem_singleton.1 he] at htells
    obtain ⟨hgranted, rfl⟩ := LoggedCall.of_tells_entry htells
    exact hnew hgranted

theorem After.set (h : w.After es w') (c : EventClass) (p : Nat) :
    w.After (es ++ [w'.source.entry (.setPeriod c p)]) (w'.set c p).2 where
  calls := by
    rw [set_eq]
    exact h.calls_append _
  knows := h.knows_append (fun _ hd => hd.set c p) (fun hc => knows_set hc p)
  periods := by
    rw [set_eq]
    exact h.periods_append _

theorem After.get (h : w.After es w') (c : EventClass) :
    w.After (es ++ [w'.source.entry (.period c)]) (w'.get c).2 where
  calls := by
    rw [get_eq]
    exact h.calls_append _
  knows := h.knows_append (fun _ hd => hd.get c) knows_get
  periods := by
    rw [get_eq]
    exact h.periods_append _

end After

/-- Some calls lead from one writer to another. -/
def Reaches (w w' : PeriodWriter) : Prop := ∃ es, w.After es w'

theorem reaches_refl (w : PeriodWriter) : w.Reaches w := ⟨[], w.after_nil⟩

theorem Reaches.refuse {w w' : PeriodWriter} (h : w.Reaches w') (c : EventClass) (op : SourceOp)
    (b : Bool) : w.Reaches { w' with source := w'.source.setRefusal c op b } := by
  obtain ⟨es, hes⟩ := h
  exact ⟨es, hes.calls, hes.knows, hes.periods⟩

/-- Whatever a job is, its calls are calls of the writer. -/
theorem safe_reaches {α : Type} (w : PeriodWriter) (t : PeriodTask α) :
    t.Safe w.Reaches fun _ => True :=
  PeriodTask.safe_of_calls (fun _ c ⟨_, hes⟩ => ⟨_, hes.get c⟩)
    (fun _ c p ⟨_, hes⟩ => ⟨_, hes.set c p⟩) t

/-- No job makes a known period unknown. -/
theorem safe_knows {α : Type} (cs : List EventClass) (t : PeriodTask α) :
    t.Safe (fun w => ∀ cls ∈ cs, w.Knows cls) fun _ => True :=
  PeriodTask.safe_of_calls (fun _ c hw cls hcls => (hw cls hcls).get c)
    (fun _ c p hw cls hcls => (hw cls hcls).set c p) t

end PeriodWriter

/-! ## Jobs that share a writer -/

/-- A writer and the jobs that were begun over it. -/
structure Crew where
  writer : PeriodWriter
  tasks : List (PeriodTask JobResult) := []

namespace Crew

inductive Move (ι : Type) where
  | begin (job : PeriodJob ι)
  /-- A job makes its next call. -/
  | resume (n : Nat)
  /-- The source changes its answer to an operation on a class. -/
  | refuse (c : EventClass) (op : SourceOp) (refuse : Bool)

variable {ι : Type} [DecidableEq ι]

def apply (crew : Crew) : Move ι → Crew
  | .begin job => { crew with tasks := crew.tasks ++ [job.task] }
  | .resume n =>
    match crew.tasks[n]? with
    | none => crew
    | some t =>
      let (t, writer) := t.step crew.writer
      { writer, tasks := crew.tasks.set n t }
  | .refuse c op refuse =>
    { crew with
      writer := { crew.writer with source := crew.writer.source.setRefusal c op refuse } }

def run (crew : Crew) (moves : List (Move ι)) : Crew := moves.foldl apply crew

theorem reaches_apply {w : PeriodWriter} {crew : Crew} (h : w.Reaches crew.writer) (move : Move ι) :
    w.Reaches (crew.apply move).writer := by
  cases move with
  | begin job => exact h
  | resume n =>
      simp only [apply]
      split
      · exact h
      · rename_i t _
        exact ((PeriodWriter.safe_reaches w t).step h).2
  | refuse c op b => exact h.refuse c op b

theorem reaches_run {w : PeriodWriter} {crew : Crew} (h : w.Reaches crew.writer)
    (moves : List (Move ι)) : w.Reaches (crew.run moves).writer := by
  induction moves generalizing crew with
  | nil => exact h
  | cons move moves ih => exact ih (reaches_apply h move)

end Crew

/-! ## The classes of a controller -/

namespace Controller

variable {ρ ι : Type} [DecidableEq ι]

/-- What the loops of a controller do keeps known periods known. -/
theorem kept_knows (c : Controller ρ ι) (cs : List EventClass) :
    c.Kept fun w => ∀ cls ∈ cs, w.Knows cls where
  cycle := fun _ _ => PeriodWriter.safe_knows cs _
  push := fun _ => PeriodWriter.safe_knows cs _
  disable := fun w d hw cls hcls => by
    show w.known.get cls = (w.source.perform (.disable d)).periods.get cls
    rw [EventSource.periods_perform]
    exact hw cls hcls
  refuse := fun _ _ _ _ hw => hw

omit [DecidableEq ι] in
/-- After a start the period of every enabled class is known. -/
theorem knows_of_init {o : Options} {s : EventSource} {resolver : ρ} {c : Controller ρ ι}
    (h : init o s resolver = .ok c) : ∀ cls ∈ c.enabled, c.writer.Knows cls := by
  obtain ⟨-, hall, rfl⟩ := eq_started_of_init h
  intro cls hcls
  show (initialPeriods o).get cls = (s.performAll (startup o s)).periods.get cls
  rw [periods_startup hall, if_pos (mem_available.1 hcls)]
  exact PerClass.get_map ..

end Controller

/-! ## Main result -/

/-- Whatever cycles and pushes share a writer, call by call, and whatever the source refuses: after
any of their calls, the period that is known of a class with a granted call is that of the source,
which is the one last written or, without a write, the one from before. The calls that are granted
are those that the writer answers with success. So a controller that has started shows the periods
of the source for all classes that it enabled. -/
theorem known_periods {ρ ι : Type} [DecidableEq ι] [Resolver ρ ι] (w : PeriodWriter)
    (moves : List (Crew.Move ι)) :
    let w' := (Crew.run { writer := w } moves).writer
    (∃ es, w'.source.calls = w.source.calls ++ es.toArray ∧
      ∀ cls,
        ((∃ e ∈ es, e.tells cls = true) → w'.known.get cls = w'.source.periods.get cls) ∧
        w'.source.periods.get cls = (lastProgrammed? cls es).getD (w.source.periods.get cls)) ∧
    w'.Outcomes ∧
    ∀ (o : Options) (s : EventSource) (resolver : ρ) (c : Controller ρ ι),
      Controller.init o s resolver = .ok c →
      ∀ moves : List (AtWork.Move ι), (∀ cls p, .op (.override cls p) ∉ moves) →
        let d := (AtWork.run { controller := c } moves).controller
        ∀ cls ∈ d.enabled, (d.snapshot.get cls).currentPeriod = d.source.periods.get cls := by
  intro w'
  refine ⟨?_, ?_, ?_⟩
  · have hreaches : w.Reaches w' := Crew.reaches_run w.reaches_refl moves
    obtain ⟨es, hes⟩ := hreaches
    exact ⟨es, hes.calls, fun cls => ⟨hes.knows cls, hes.periods cls⟩⟩
  · exact w'.outcomes
  · intro o s resolver c hinit moves hmoves d cls hcls
    have hstart : AtWork.Keeps c (fun w => ∀ cls ∈ c.enabled, w.Knows cls) { controller := c } :=
      ⟨.refl c, Controller.knows_of_init hinit, by simp⟩
    have hend : AtWork.Keeps c (fun w => ∀ cls ∈ c.enabled, w.Knows cls)
        (AtWork.run { controller := c } moves) := by
      have hkept := c.kept_knows c.enabled
      refine hstart.run hkept.toKeptByJobs fun op hop => hkept.keeps ?_
      rintro cls p rfl
      exact absurd hop (hmoves cls p)
    have hknows : d.writer.Knows cls := hend.writer cls (hend.setup.enabled ▸ hcls)
    rw [Controller.snapshot, PerClass.get_ofFn]
    exact hknows

/-! ## A push within a cycle -/

/-- Reads of one class are refused. -/
def unreadableSource : EventSource where
  cpus := [0]
  ringSize := 4096
  refuses := fun c op => c = .dramRead && op = .period

/-- A cycle has read the period of the first class when a push writes coarser ones. Then the source
refuses to write the first class, and the cycle goes on. -/
def pushWithinCycle : List (AtWork.Move UInt64) :=
  [.beginCycle (.replicate 0) fun _ => .empty 4, .resume 0, .resume 0,
    .beginQuotaStep { spent := .ofParts 1 0, elapsed := .ofParts 1 0 }] ++
  .replicate 9 (.resume 1) ++ .op (.refuse .l1Hit .setPeriod true) :: .replicate 24 (.resume 0)

theorem known_periods_pushWithinCycle :
    let source := unreadableSource
    let directory : PageDirectory := {}
    ∃ c, Controller.init (ι := UInt64) {} source directory = .ok c ∧
      let d := (AtWork.run { controller := c } pushWithinCycle).controller
      ∀ cls ∈ d.enabled, (d.snapshot.get cls).currentPeriod = d.source.periods.get cls := by
  intro source directory
  have hinit : Controller.init (ι := UInt64) {} source directory =
      .ok (Controller.started {} source directory) :=
    Controller.init_of_granted (by decide) (by decide)
  have hall := known_periods (ρ := PageDirectory) { source, known := .replicate 0 } []
  exact ⟨_, hinit, hall.2.2 {} source directory _ hinit pushWithinCycle
    (by simp [pushWithinCycle])⟩

end AccessSampling
