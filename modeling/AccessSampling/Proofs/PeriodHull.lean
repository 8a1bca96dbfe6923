import AccessSampling.Proofs.JobCalls
import AccessSampling.Proofs.SampleBudget

/-!
# The range of the periods

Every period that a controller writes comes from the options or, by smoothing and scaling, from the
periods that the source had. Smoothing stays between the period in effect and the target, and the
budget raises a proposal at most to the ceiling or leaves it. So the range of the periods in the
options and of those that others have set is never left, whatever the loops do in between.
-/

namespace AccessSampling

namespace Options

/-- Every period that the options name. -/
def namedPeriods (o : Options) : List Nat :=
  [o.period.min, o.period.max] ++ o.classes.toList.map ClassOptions.initialPeriod ++
    o.quota.basePeriods ++ o.quota.instrPeriods

/-- The lowest of the periods in the options and of some others. -/
def lowestPeriod (o : Options) (outside : List Nat) : Nat :=
  (o.namedPeriods ++ outside).min (by simp [namedPeriods])

def highestPeriod (o : Options) (outside : List Nat) : Nat :=
  (o.namedPeriods ++ outside).max (by simp [namedPeriods])

/-- A period within the range of those in the options and of some others. -/
def InRange (o : Options) (outside : List Nat) (p : Nat) : Prop :=
  o.lowestPeriod outside ≤ p ∧ p ≤ o.highestPeriod outside

variable {o : Options} {outside : List Nat}

theorem inRange_of_mem {p : Nat} (h : p ∈ o.namedPeriods ++ outside) : o.InRange outside p :=
  ⟨List.min_le_of_mem h, List.le_max_of_mem h⟩

/-- What lies between two periods of the range is in the range. -/
theorem InRange.between {p q r : Nat} (hp : o.InRange outside p) (hq : o.InRange outside q)
    (hlow : min p q ≤ r) (hhigh : r ≤ max p q) : o.InRange outside r := by
  obtain ⟨hp, hp'⟩ := hp
  obtain ⟨hq, hq'⟩ := hq
  exact ⟨by omega, by omega⟩

theorem inRange_min : o.InRange outside o.period.min := inRange_of_mem (by simp [namedPeriods])

theorem inRange_max : o.InRange outside o.period.max := inRange_of_mem (by simp [namedPeriods])

theorem inRange_initialPeriod (c : EventClass) :
    o.InRange outside (o.classes.get c).initialPeriod := by
  refine inRange_of_mem ?_
  simp only [namedPeriods, List.mem_append, List.mem_map, PerClass.toList]
  exact .inl (.inl (.inl (.inr ⟨_, ⟨c, EventClass.mem_all c, rfl⟩, rfl⟩)))

theorem inRange_outside {p : Nat} (h : p ∈ outside) : o.InRange outside p :=
  inRange_of_mem (List.mem_append_right _ h)

theorem inRange_coarse {t : Tier} {step p : Nat} (h : o.quota.period? t step = some p) :
    o.InRange outside p := by
  refine inRange_of_mem ?_
  cases t with
  | base =>
      have hmem : p ∈ o.quota.basePeriods := List.mem_of_getElem? h
      simp [namedPeriods, hmem]
  | instr =>
      have hmem : p ∈ o.quota.instrPeriods := List.mem_of_getElem? h
      simp [namedPeriods, hmem]
  | fixed => cases h

/-- Valid options name no period of zero. -/
theorem Valid.namedPeriods_pos (hv : o.Valid) : ∀ p ∈ o.namedPeriods, 0 < p := by
  intro p hp
  simp only [namedPeriods, List.mem_append, List.mem_cons, List.not_mem_nil, or_false,
    List.mem_map, PerClass.toList] at hp
  rcases hp with (((rfl | rfl) | ⟨_, ⟨c, -, rfl⟩, rfl⟩) | hp) | hp
  · exact hv.min_pos
  · exact Nat.lt_trans hv.min_pos hv.min_lt_max
  · exact hv.initialPeriod_pos c
  · exact hv.basePeriods_pos p hp
  · exact hv.instrPeriods_pos p hp

/-- A period of zero is in the range only if another one is zero. -/
theorem Valid.zero_mem (hv : o.Valid) (h : o.InRange outside 0) : 0 ∈ outside := by
  have hmem : o.lowestPeriod outside ∈ o.namedPeriods ++ outside := List.min_mem _
  rw [Nat.le_zero.1 h.1] at hmem
  rcases List.mem_append.1 hmem with hnamed | houtside
  · exact absurd (hv.namedPeriods_pos 0 hnamed) (Nat.lt_irrefl 0)
  · exact houtside

end Options

/-! ## The source -/

/-- Some classes have periods within the range, and every write since some calls asked for one. -/
structure PeriodWriter.StaysInRange (o : Options) (outside : List Nat) (adaptive : List EventClass)
    (start : Array LoggedCall) (w : PeriodWriter) : Prop where
  periods : ∀ c ∈ adaptive, o.InRange outside (w.source.periods.get c)
  writes : ∃ es : List LoggedCall, w.source.calls = start ++ es.toArray ∧
    ∀ e ∈ es, ∀ c p, e.call = .setPeriod c p → o.InRange outside p

theorem LoggedCall.call_of_programmed {e : LoggedCall} {c : EventClass} {p : Nat}
    (h : e.programmed? c = some p) : e.call = .setPeriod c p := by
  obtain ⟨call, granted⟩ := e
  cases call with
  | setPeriod c' p' =>
      cases granted with
      | true =>
          simp only [programmed?, Option.ite_none_right_eq_some, Option.some.injEq] at h
          rw [h.1, h.2]
      | false => cases h
  | openRing | enable | disable | period => cases h

namespace PeriodWriter

variable {o : Options} {outside : List Nat} {adaptive : List EventClass}
  {start : Array LoggedCall} {w : PeriodWriter}

/-- A call that writes no period from outside the range. -/
theorem StaysInRange.perform (h : w.StaysInRange o outside adaptive start) {call : SourceCall}
    (hcall : ∀ c p, call = .setPeriod c p → o.InRange outside p) (known : PerClass Nat) :
    StaysInRange o outside adaptive start { source := w.source.perform call, known } where
  periods := by
    intro c hc
    show o.InRange outside ((w.source.perform call).periods.get c)
    rw [EventSource.periods_perform]
    cases hp : (w.source.entry call).programmed? c with
    | none => exact h.periods c hc
    | some p => exact hcall c p (LoggedCall.call_of_programmed hp)
  writes := by
    obtain ⟨es, hcalls, hes⟩ := h.writes
    refine ⟨es ++ [w.source.entry call], ?_, ?_⟩
    · show (w.source.perform call).calls = _
      rw [EventSource.calls_perform, hcalls]
      simp
    · intro e he c p hwrite
      rcases List.mem_append.1 he with he | he
      · exact hes e he c p hwrite
      · rw [List.mem_singleton.1 he] at hwrite
        exact hcall c p hwrite

theorem StaysInRange.get (h : w.StaysInRange o outside adaptive start) (c : EventClass) :
    (w.get c).2.StaysInRange o outside adaptive start := by
  rw [get_eq]
  exact h.perform (fun _ _ heq => by cases heq) _

theorem StaysInRange.set (h : w.StaysInRange o outside adaptive start) (c : EventClass) {p : Nat}
    (hp : o.InRange outside p) : (w.set c p).2.StaysInRange o outside adaptive start := by
  rw [set_eq]
  refine h.perform (fun c' p' heq => ?_) _
  cases heq
  exact hp

theorem StaysInRange.override (h : w.StaysInRange o outside adaptive start) (c : EventClass)
    {p : Nat} (hp : o.InRange outside p) :
    StaysInRange o outside adaptive start
      { w with source := w.source.overridePeriod c p } where
  periods := by
    intro d hd
    show o.InRange outside ((w.source.periods.set c p).get d)
    rw [PerClass.get_set]
    split
    · exact hp
    · exact h.periods d hd
  writes := h.writes

/-- A period that is read of an adaptive class. -/
theorem StaysInRange.of_get (h : w.StaysInRange o outside adaptive start) {c : EventClass}
    (hc : c ∈ adaptive) {p : Nat} (hget : (w.get c).1 = .ok p) : o.InRange outside p := by
  cases hrefused : w.source.refuses c .period with
  | true =>
      rw [get_of_refused hrefused] at hget
      cases hget
  | false =>
      rw [get_of_granted hrefused] at hget
      cases hget
      exact h.periods c hc

end PeriodWriter

/-! ## The jobs -/

section Jobs

variable {ι : Type} [DecidableEq ι] {o : Options} {outside : List Nat} {start : Array LoggedCall}

namespace AdaptiveLoop

variable {l : AdaptiveLoop}

/-- The target of a score is in the range. -/
theorem inRange_target (hv : o.Valid) (hl : l.options = o.period) (score : Nat) :
    o.InRange outside (l.options.target score) := by
  rw [hl]
  obtain ⟨hlow, hhigh⟩ := PeriodOptions.target_between (Nat.le_of_lt hv.min_lt_max) score
  exact Options.inRange_min.between Options.inRange_max (by omega) (by omega)

/-- A proposal that the budget can scale without leaving the range. -/
structure InRange (o : Options) (outside : List Nat) (p : Projection) : Prop where
  period : o.InRange outside p.period
  sound : p.Sound

theorem inRange_proposal (hv : o.Valid) (hl : l.options = o.period) {current : Nat}
    (hcurrent : o.InRange outside current) (c : EventClass) (recent score : Nat) :
    InRange o outside
      { cls := c
        events := recent * current
        period := l.options.ema.smooth current (l.options.target score) } where
  period := by
    obtain ⟨hlow, hhigh⟩ := Ratio.smooth_between (r := l.options.ema) (by rw [hl]; exact hv.den_pos)
      (by rw [hl]; exact hv.num_le_den) current (l.options.target score)
    exact hcurrent.between (inRange_target hv hl score) hlow hhigh
  sound := sound_smoothed hv hl c recent current score

theorem safe_surveyTask (hv : o.Valid) (hl : l.options = o.period)
    (seen : EventClass → Tally ι) (so : ScoreOptions) {s : Findings}
    (hs : ∀ p ∈ s.projections, InRange o outside p) (c : EventClass) :
    (l.surveyTask seen so s c).Safe (PeriodWriter.StaysInRange o outside l.adaptive start)
      fun s => ∀ p ∈ s.projections, InRange o outside p := by
  intro w hw
  dsimp only
  by_cases hc : c ∈ l.adaptive
  · rw [if_pos hc]
    intro w hw
    refine ⟨hw.get c, ?_⟩
    cases hget : (w.get c).1 with
    | error r => exact hs
    | ok current =>
        intro p hp
        rcases List.mem_append.1 hp with hp | hp
        · exact hs p hp
        · rw [List.mem_singleton.1 hp]
          exact inRange_proposal hv hl (hw.of_get hc hget) c _ _
  · rw [if_neg hc]
    exact hs

theorem safe_retuneTask {adaptive : List EventClass} (r : Rewrites) {p : Projection}
    (hp : o.InRange outside p.period) :
    (retuneTask r p).Safe (PeriodWriter.StaysInRange o outside adaptive start) fun _ => True := by
  intro w hw
  refine ⟨hw.set p.cls hp, ?_⟩
  cases (w.set p.cls p.period).1 with
  | error | ok => trivial

/-- The writes of a cycle stay in the range. -/
theorem safe_cycleTask (hv : o.Valid) (hl : l.options = o.period)
    (seen : EventClass → Tally ι) (so : ScoreOptions) :
    (l.cycleTask seen so).Safe (PeriodWriter.StaysInRange o outside l.adaptive start)
      fun _ => True := by
  have hsurvey : (EventClass.all.foldlM (l.surveyTask seen so) {}).Safe
      (PeriodWriter.StaysInRange o outside l.adaptive start)
      fun s => ∀ p ∈ s.projections, InRange o outside p :=
    PeriodTask.safe_foldlM (by simp) fun s c _ hs => safe_surveyTask hv hl seen so hs c
  refine hsurvey.bind fun s hs => ?_
  rcases hbudget : enforceBudget l.options.budget l.options.max s.projections with ⟨budget, ps⟩
  have hps : ∀ q ∈ ps, o.InRange outside q.period := by
    intro q hq
    obtain ⟨p, hp, hraised⟩ :=
      exists_raised_of_enforceBudget (fun p hp => (hs p hp).sound) hbudget hq
    have hceiling : o.InRange outside l.options.max := hl ▸ Options.inRange_max
    have hlow := hraised.le
    have hhigh := hraised.le_ceiling
    exact (hs p hp).period.between hceiling (by omega) (by omega)
  have hretune : (ps.foldlM retuneTask { metrics := s.metrics }).Safe
      (PeriodWriter.StaysInRange o outside l.adaptive start) fun _ => True :=
    PeriodTask.safe_foldlM trivial fun r p hp _ => safe_retuneTask r (hps p hp)
  exact hretune.bind fun r _ => trivial

end AdaptiveLoop

theorem QuotaLoop.safe_pushTask {adaptive : List EventClass} (q : QuotaLoop)
    (cs : List EventClass) :
    (q.pushTask cs o.quota).Safe (PeriodWriter.StaysInRange o outside adaptive start)
      fun _ => True := by
  refine (q.callsOnly_pushTask cs o.quota).safe ?_ ?_
  · intro w c hcall
    cases hcall
  · intro w c p hcall hw
    exact hw.set c (Options.inRange_coarse hcall.2)

end Jobs

/-! ## The controller -/

namespace Controller

variable {ρ ι : Type}

/-- A controller that has started without leaving the range. -/
structure StartedInRange (o : Options) (s : EventSource) (outside : List Nat)
    (c : Controller ρ ι) : Prop where
  valid : o.Valid
  options : c.options = o
  periodOptions : c.loop.options = o.period
  writer : c.writer.StaysInRange o outside c.loop.adaptive s.calls

/-- The writes of a start are those of the initial periods. -/
theorem period_of_startup {o : Options} {s : EventSource} {c : EventClass} {p : Nat}
    (h : .setPeriod c p ∈ startup o s) : p = (o.classes.get c).initialPeriod := by
  rcases List.mem_append.1 h with h | h
  · cases op_openCalls h
  · obtain ⟨d, -, heq | heq⟩ := mem_startCalls.1 h
    · cases heq
      rfl
    · cases heq

theorem startedInRange_of_init {o : Options} {s : EventSource} {resolver : ρ}
    {c : Controller ρ ι} (h : init o s resolver = .ok c) (outside : List Nat) :
    c.StartedInRange o s outside := by
  obtain ⟨hv, hall, rfl⟩ := eq_started_of_init h
  refine ⟨hv, rfl, rfl, ?_, (startup o s).map s.entry, EventSource.calls_performAll .., ?_⟩
  · intro cls hcls
    have havailable : cls ∈ available s := by simpa using (List.mem_filter.1 hcls).2
    show o.InRange outside ((s.performAll (startup o s)).periods.get cls)
    rw [periods_startup hall, if_pos (mem_available.1 havailable)]
    exact Options.inRange_initialPeriod cls
  · intro e he cls p hwrite
    obtain ⟨call, hcall, rfl⟩ := List.mem_map.1 he
    cases hwrite
    rw [period_of_startup hcall]
    exact Options.inRange_initialPeriod cls

variable [DecidableEq ι]

/-- What the loops of a controller do stays in the range. -/
theorem kept_staysInRange {o : Options} {outside : List Nat} {c : Controller ρ ι} {s : EventSource}
    (h : c.StartedInRange o s outside) :
    c.Kept (PeriodWriter.StaysInRange o outside c.loop.adaptive s.calls) where
  cycle := fun last seen => by
    let l : AdaptiveLoop := { c.loop with lastSamples := last }
    have hl : l.options = o.period := h.periodOptions
    exact PeriodJob.safe_task_cycle (AdaptiveLoop.safe_cycleTask h.valid hl seen _)
  push := fun quota => PeriodJob.safe_task_push (h.options ▸ quota.safe_pushTask c.loop.adaptive)
  disable := fun w cls hw => hw.perform (fun _ _ heq => by cases heq) w.known
  refuse := fun _ _ _ _ hw => ⟨hw.periods, hw.writes⟩

end Controller

namespace AtWork

/-- The periods that others set. -/
def outside {ι : Type} (moves : List (Move ι)) : List Nat :=
  moves.filterMap fun
    | .op (.override _ period) => some period
    | _ => none

theorem mem_outside {ι : Type} {moves : List (Move ι)} {c : EventClass} {p : Nat}
    (h : .op (.override c p) ∈ moves) : p ∈ outside moves :=
  List.mem_filterMap.2 ⟨_, h, rfl⟩

end AtWork

/-! ## Main result -/

/-- Whatever a controller that has started does, call by call, and whatever the source refuses:
every write of a period, also in the start, asks for one within the range of the periods in the
options and of those that others have set. It asks for zero only if others have set zero. -/
theorem writes_in_range {ρ ι : Type} [DecidableEq ι] [Resolver ρ ι] {o : Options}
    {s : EventSource} {resolver : ρ} {c : Controller ρ ι}
    (h : Controller.init o s resolver = .ok c) (moves : List (AtWork.Move ι)) :
    let d := (AtWork.run { controller := c } moves).controller
    let outside := AtWork.outside moves
    ∃ es : List LoggedCall, d.source.calls = s.calls ++ es.toArray ∧
      ∀ e ∈ es, ∀ cls p, e.call = .setPeriod cls p →
        o.lowestPeriod outside ≤ p ∧ p ≤ o.highestPeriod outside ∧ (p = 0 → 0 ∈ outside) := by
  intro d outside
  have hinit : c.StartedInRange o s outside := Controller.startedInRange_of_init h outside
  have hstart : AtWork.Keeps c (PeriodWriter.StaysInRange o outside c.loop.adaptive s.calls)
      { controller := c } :=
    ⟨.refl c, hinit.writer, by simp⟩
  have hend : AtWork.Keeps c (PeriodWriter.StaysInRange o outside c.loop.adaptive s.calls)
      (AtWork.run { controller := c } moves) := by
    have hkept := Controller.kept_staysInRange hinit
    refine hstart.run hkept.toKeptByJobs fun op hop => hkept.keeps ?_
    rintro cls p rfl w hw
    exact hw.override cls (Options.inRange_outside (AtWork.mem_outside hop))
  obtain ⟨es, hcalls, hes⟩ := hend.writer.writes
  refine ⟨es, hcalls, fun e he cls p hwrite => ?_⟩
  have hrange : o.InRange outside p := hes e he cls p hwrite
  refine ⟨hrange.1, hrange.2, ?_⟩
  rintro rfl
  exact hinit.valid.zero_mem hrange

/-! ## A period from outside -/

/-- The source grants every call. -/
def willingSource : EventSource where
  cpus := [0]
  ringSize := 4096

/-- Within a cycle someone else sets a period above all those of the options. -/
def raisedWithinCycle : List (AtWork.Move UInt64) :=
  [.beginCycle (.replicate 0) fun _ => .empty 4, .resume 0, .resume 0,
    .op (.override .l1Miss 30000000)] ++ .replicate 22 (.resume 0)

theorem writes_in_range_raisedWithinCycle :
    let directory : PageDirectory := {}
    ∃ c, Controller.init (ι := UInt64) {} willingSource directory = .ok c ∧
      ∃ es : List LoggedCall,
        (AtWork.run { controller := c } raisedWithinCycle).controller.source.calls = es.toArray ∧
        ∀ e ∈ es, ∀ cls p, e.call = .setPeriod cls p → 2000 ≤ p ∧ p ≤ 30000000 := by
  intro directory
  have hinit : Controller.init (ι := UInt64) {} willingSource directory =
      .ok (Controller.started {} willingSource directory) :=
    Controller.init_of_granted (by decide) (by decide)
  obtain ⟨es, hcalls, hes⟩ := writes_in_range hinit raisedWithinCycle
  have hlow : ({} : Options).lowestPeriod (AtWork.outside raisedWithinCycle) = 2000 := by decide
  have hhigh : ({} : Options).highestPeriod (AtWork.outside raisedWithinCycle) = 30000000 := by
    decide
  rw [hlow, hhigh] at hes
  refine ⟨_, hinit, es, by simpa [willingSource] using hcalls, fun e he cls p hwrite => ?_⟩
  obtain ⟨hp, hp', -⟩ := hes e he cls p hwrite
  exact ⟨hp, hp'⟩

end AccessSampling
