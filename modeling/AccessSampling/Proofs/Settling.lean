import AccessSampling.Proofs.ControllerRun
import AccessSampling.Proofs.SampleBudget
import AccessSampling.Proofs.Startup
import Mathlib.Algebra.BigOperators.Group.List.Basic
import Mathlib.Data.Nat.Dist
import Mathlib.Logic.Function.Iterate

/-!
# Settling

Once nothing is sampled any more, a cycle estimates that no class has events, so the budget leaves
the proposals alone and every adaptive class is smoothed towards one target again and again. The
rounding decides where that ends: as long as a step moves the period at all, it comes closer to the
target by one at least, and where it does not, the period is as close as the rounding can tell.
-/

namespace AccessSampling

/-! ## Smoothing again and again -/

namespace Ratio

variable {r : Ratio}

/-- A step that moves a period brings it closer to the target. -/
theorem dist_smooth_lt (hd : 0 < r.den) (hn : r.num ≤ r.den) {p target : Nat}
    (h : r.smooth p target ≠ p) : (r.smooth p target).dist target < p.dist target := by
  obtain ⟨hlow, hhigh⟩ := smooth_between hd hn p target
  simp only [Nat.dist]
  omega

/-- Where smoothing stops, the period is on target but for the rounding. -/
theorem num_mul_dist_le (hd : 0 < r.den) (hn : r.num ≤ r.den) {p target : Nat}
    (h : r.smooth p target = p) : 2 * r.num * p.dist target ≤ r.den := by
  have hsplit : r.num * p + (r.den - r.num) * p = r.den * p := by
    rw [← Nat.add_mul, Nat.add_sub_cancel' hn]
  have hlow : p * r.den ≤ r.num * target + (r.den - r.num) * p + r.den / 2 :=
    (Nat.le_div_iff_mul_le hd).1 (Nat.le_of_eq h.symm)
  have hhigh : r.num * target + (r.den - r.num) * p + r.den / 2 < (p + 1) * r.den :=
    (Nat.div_lt_iff_lt_mul hd).1 (Nat.lt_succ_of_le (Nat.le_of_eq h))
  rw [Nat.mul_comm p] at hlow
  rw [Nat.add_mul, Nat.one_mul, Nat.mul_comm p] at hhigh
  rw [Nat.mul_assoc, Nat.dist, Nat.mul_add, Nat.mul_sub, Nat.mul_sub]
  omega

/-- The distance to the target bounds the number of steps that move a period. -/
theorem exists_smooth_fixed (hd : 0 < r.den) (hn : r.num ≤ r.den) (target p : Nat) :
    ∃ k ≤ p.dist target,
      r.smooth ((fun q => r.smooth q target)^[k] p) target =
        (fun q => r.smooth q target)^[k] p := by
  induction hdist : p.dist target using Nat.strong_induction_on generalizing p with
  | _ m ih =>
      by_cases hfixed : r.smooth p target = p
      · exact ⟨0, Nat.zero_le _, hfixed⟩
      · have hlt := dist_smooth_lt hd hn hfixed
        obtain ⟨k, hk, hstop⟩ := ih _ (hdist ▸ hlt) (r.smooth p target) rfl
        exact ⟨k + 1, by omega, by rwa [Function.iterate_succ_apply]⟩

end Ratio

/-! ## A cycle over a healthy source -/

/-- The source refuses neither to read nor to write the periods of some classes. -/
def EventSource.Healthy (s : EventSource) (cs : List EventClass) : Prop :=
  ∀ c ∈ cs, s.refuses c .period = false ∧ s.refuses c .setPeriod = false

/-- Writes of projected periods. -/
def PerClass.program (t : PerClass Nat) (ps : List Projection) : PerClass Nat :=
  ps.foldl (fun t p => t.set p.cls p.period) t

theorem PerClass.get_program_congr {t t' : PerClass Nat} {c : EventClass} (h : t.get c = t'.get c)
    (ps : List Projection) : (t.program ps).get c = (t'.program ps).get c := by
  induction ps generalizing t t' with
  | nil => exact h
  | cons p ps ih =>
      refine ih ?_
      rw [PerClass.get_set, PerClass.get_set, h]

theorem PerClass.get_program_map (t : PerClass Nat) {f : EventClass → Projection}
    (hf : ∀ c, (f c).cls = c) (cs : List EventClass) (c : EventClass) :
    (t.program (cs.map f)).get c = if c ∈ cs then (f c).period else t.get c := by
  induction cs using List.reverseRecOn with
  | nil => rfl
  | append_singleton cs d ih =>
      rw [List.map_append, program, List.foldl_append]
      show ((t.program (cs.map f)).set (f d).cls (f d).period).get c = _
      rw [PerClass.get_set, hf, ih]
      by_cases hc : c = d
      · simp [hc]
      · simp [hc]

namespace AdaptiveLoop

theorem periods_retune {w : PeriodWriter} {metrics : PerClass Metrics} {ps : List Projection}
    (h : ∀ p ∈ ps, w.source.refuses p.cls .setPeriod = false) :
    (retune w metrics ps).writer.source.periods = w.source.periods.program ps := by
  induction ps using List.reverseRecOn with
  | nil => rfl
  | append_singleton ps p ih =>
      have hps := ih fun q hq => h q (List.mem_append_left _ hq)
      have hgranted : (retune w metrics ps).writer.source.refuses p.cls .setPeriod = false := by
        rw [(retuned_retune w metrics ps).refuses]
        exact h p (by simp)
      rw [retune, List.foldl_append, PerClass.program, List.foldl_append]
      show (retuneClass (retune w metrics ps) p).writer.source.periods =
        (w.source.periods.program ps).set p.cls p.period
      rw [retuneClass, PeriodWriter.set_of_granted hgranted, ← hps]

section Healthy

variable {ι : Type} [DecidableEq ι] {l : AdaptiveLoop} {w : PeriodWriter} {t : Tally ι}
  {o : Options}

theorem refuses_adapt (l : AdaptiveLoop) (w : PeriodWriter) (t : Tally ι) (so : ScoreOptions) :
    (l.adapt w t so).writer.source.refuses = w.source.refuses := by
  rcases hbudget : enforceBudget l.options.budget l.options.max
    ((EventClass.all.filter (l.reads w)).map (l.proposal w t so)) with ⟨budget, qs⟩
  rw [adapt_eq hbudget, (retuned_retune _ _ qs).refuses, (surveyed_all l w t so).source]

theorem filter_reads (h : w.source.Healthy l.adaptive) :
    EventClass.all.filter (l.reads w) = EventClass.all.filter (· ∈ l.adaptive) := by
  refine List.filter_congr fun c _ => ?_
  by_cases hc : c ∈ l.adaptive
  · simp [reads, hc, (h c hc).1]
  · simp [reads, hc]

/-- A cycle over a healthy source writes all that the budget made of the proposals. -/
theorem periods_adapt (hv : o.Valid) (hl : l.options = o.period)
    (h : w.source.Healthy l.adaptive) :
    (l.adapt w t o.score).writer.source.periods =
      w.source.periods.program
        (enforceBudget l.options.budget l.options.max
          ((EventClass.all.filter (· ∈ l.adaptive)).map (l.proposal w t o.score))).2 := by
  rcases hbudget : enforceBudget l.options.budget l.options.max
    ((EventClass.all.filter (l.reads w)).map (l.proposal w t o.score)) with ⟨budget, qs⟩
  have hsurvey := surveyed_all l w t o.score
  have hgranted : ∀ q ∈ qs, w.source.refuses q.cls .setPeriod = false := by
    intro q hq
    have hsound : ∀ p ∈ (EventClass.all.filter (l.reads w)).map (l.proposal w t o.score),
        p.Sound := by
      intro p hp
      obtain ⟨c, -, rfl⟩ := List.mem_map.1 hp
      exact sound_proposal hv hl w t c
    obtain ⟨p, hp, hraised⟩ := exists_raised_of_enforceBudget hsound hbudget hq
    obtain ⟨c, hc, rfl⟩ := List.mem_map.1 hp
    rw [filter_reads h] at hc
    rw [hraised.cls]
    exact (h c (by simpa using hc)).2
  rw [adapt_eq hbudget]
  show (retune (l.survey w t o.score).writer _ qs).writer.source.periods = _
  rw [periods_retune (by rw [hsurvey.source]; exact hgranted), hsurvey.source, ← filter_reads h,
    hbudget]

/-- Without samples since the previous cycle the budget leaves the proposals alone. -/
theorem enforceBudget_of_quiet (h : l.lastSamples = t.samples) (budget ceiling : Nat)
    (so : ScoreOptions) (cs : List EventClass) :
    (enforceBudget budget ceiling (cs.map (l.proposal w t so))).2 =
      cs.map (l.proposal w t so) := by
  have hvolume : totalVolume (cs.map (l.proposal w t so)) = 0 := by
    rw [totalVolume_eq_sum, List.map_map]
    refine List.sum_eq_zero fun v hv => ?_
    obtain ⟨c, -, rfl⟩ := List.mem_map.1 hv
    simp [Projection.volume, proposal, recent, h]
  rw [enforceBudget_of_fits (by omega)]

/-- Without samples since the previous cycle each adaptive class is smoothed towards its target. -/
theorem periods_adapt_of_quiet (hv : o.Valid) (hl : l.options = o.period)
    (h : w.source.Healthy l.adaptive) (hquiet : l.lastSamples = t.samples) {c : EventClass}
    (hc : c ∈ l.adaptive) :
    (l.adapt w t o.score).writer.source.periods.get c =
      l.options.ema.smooth (w.source.periods.get c) (l.targetOf t o.score c) := by
  rw [periods_adapt hv hl h, enforceBudget_of_quiet hquiet,
    PerClass.get_program_map _ fun _ => rfl, if_pos (by simpa using hc)]
  rfl

/-- A cycle over a healthy source depends on the periods of the adaptive classes only. -/
theorem periods_adapt_congr (hv : o.Valid) (hl : l.options = o.period) {w' : PeriodWriter}
    (h : w.source.Healthy l.adaptive) (h' : w'.source.Healthy l.adaptive)
    (hperiods : ∀ c ∈ l.adaptive, w'.source.periods.get c = w.source.periods.get c)
    {c : EventClass} (hc : c ∈ l.adaptive) :
    (l.adapt w' t o.score).writer.source.periods.get c =
      (l.adapt w t o.score).writer.source.periods.get c := by
  have hproposals :
      (EventClass.all.filter (· ∈ l.adaptive)).map (l.proposal w' t o.score) =
        (EventClass.all.filter (· ∈ l.adaptive)).map (l.proposal w t o.score) := by
    refine List.map_congr_left fun d hd => ?_
    rw [proposal, proposal, hperiods d (by simpa using hd)]
  rw [periods_adapt hv hl h, periods_adapt hv hl h', hproposals]
  exact PerClass.get_program_congr (hperiods c hc) _

end Healthy

end AdaptiveLoop

/-! ## Cycle by cycle -/

namespace Controller

variable {ρ ι : Type} [DecidableEq ι]

/-- The target of a class. -/
def target (c : Controller ρ ι) (cls : EventClass) : Nat :=
  c.options.period.target (c.tally.metrics c.options.score cls).composite

/-- The period of a class after some cycles. -/
def periodAfter (c : Controller ρ ι) (cls : EventClass) : Nat → Nat
  | 0 => c.source.periods.get cls
  | n + 1 =>
    (fun p => c.options.period.ema.smooth p (c.target cls))^[n] (c.adapt.2.source.periods.get cls)

/-- Where a run without samples has come to after some cycles. -/
structure Progress (c : Controller ρ ι) (n : Nat) (d : Controller ρ ι) : Prop where
  setup : c.SameSetup d
  running : d.running = true
  lastSamples : d.loop.lastSamples = if n = 0 then c.loop.lastSamples else c.tally.samples
  periods : ∀ cls ∈ c.loop.adaptive, d.source.periods.get cls = c.periodAfter cls n

theorem adapt_of_running {c : Controller ρ ι} (h : c.running = true) :
    c.adapt.2.loop = { c.loop with lastSamples := c.tally.samples } ∧
      c.adapt.2.running = true ∧ c.adapt.2.tally = c.tally ∧
      c.adapt.2.source = (c.loop.adapt c.writer c.tally c.options.score).writer.source := by
  rw [adapt, if_pos h]
  exact ⟨rfl, h, rfl, rfl⟩

section Progress

variable {c d : Controller ρ ι}

/-- The first cycle of a run. -/
theorem Progress.adapt_zero (h : c.Progress 0 d) (hv : c.options.Valid)
    (hl : c.loop.options = c.options.period) (hrunning : c.running = true)
    (hc : c.source.Healthy c.loop.adaptive) (hd : d.source.Healthy c.loop.adaptive)
    (htally : d.tally = c.tally) {cls : EventClass} (hcls : cls ∈ c.loop.adaptive) :
    d.adapt.2.source.periods.get cls = c.periodAfter cls 1 := by
  have hlast : d.loop.lastSamples = c.loop.lastSamples := h.lastSamples
  have hloop : d.loop = c.loop := by
    show AdaptiveLoop.mk d.loop.options d.loop.adaptive d.loop.lastSamples = c.loop
    rw [h.setup.periodOptions, h.setup.adaptive, hlast]
  obtain ⟨-, -, -, hd'⟩ := adapt_of_running h.running
  obtain ⟨-, -, -, hc'⟩ := adapt_of_running hrunning
  rw [hd', hloop, htally, h.setup.options]
  show _ = c.adapt.2.source.periods.get cls
  rw [hc']
  exact AdaptiveLoop.periods_adapt_congr hv hl hc hd h.periods hcls

/-- A later cycle of a run: no class has had a sample since the one before. -/
theorem Progress.adapt_succ {n : Nat} (h : c.Progress (n + 1) d) (hv : c.options.Valid)
    (hl : c.loop.options = c.options.period) (hd : d.source.Healthy c.loop.adaptive)
    (htally : d.tally = c.tally) {cls : EventClass} (hcls : cls ∈ c.loop.adaptive) :
    d.adapt.2.source.periods.get cls = c.periodAfter cls (n + 2) := by
  have hperiod : d.source.periods.get cls = c.periodAfter cls (n + 1) := h.periods cls hcls
  have hoptions : d.loop.options = c.options.period := h.setup.periodOptions.trans hl
  obtain ⟨-, -, -, hsource⟩ := adapt_of_running h.running
  rw [hsource, htally, h.setup.options]
  rw [AdaptiveLoop.periods_adapt_of_quiet hv hoptions (h.setup.adaptive ▸ hd) h.lastSamples
    (h.setup.adaptive ▸ hcls)]
  show _ = (fun p => c.options.period.ema.smooth p (c.target cls))^[n + 1] _
  rw [Function.iterate_succ_apply', AdaptiveLoop.targetOf, hoptions]
  show c.options.period.ema.smooth (d.source.periods.get cls) _ = _
  rw [hperiod]
  rfl

/-- A cycle brings every adaptive class one step further. -/
theorem Progress.adapt {n : Nat} (h : c.Progress n d) (hv : c.options.Valid)
    (hl : c.loop.options = c.options.period) (hrunning : c.running = true)
    (hc : c.source.Healthy c.loop.adaptive) (hd : d.source.Healthy c.loop.adaptive)
    (htally : d.tally = c.tally) : c.Progress (n + 1) d.adapt.2 := by
  obtain ⟨hloop, hrunning', -, -⟩ := adapt_of_running h.running
  refine ⟨h.setup.trans d.sameSetup_adapt, hrunning', ?_, fun cls hcls => ?_⟩
  · rw [hloop, if_neg (Nat.succ_ne_zero n)]
    exact congrArg Tally.samples htally
  · cases n with
    | zero => exact h.adapt_zero hv hl hrunning hc hd htally hcls
    | succ n => exact h.adapt_succ hv hl hd htally hcls

end Progress

/-! ## A run without samples -/

/-- Operations after which the worker goes on, and in which no one but the adaptive loop writes
periods. -/
def Op.IsCalm : Op → Prop
  | .turn none _ | .push .. | .adapt | .refuse .. => True
  | .turn (some _) _ | .shutdown | .override .. => False

def Op.isCycle : Op → Bool
  | .adapt => true
  | _ => false

/-- The number of adaptive cycles in a run. -/
def cycles (ops : List Op) : Nat := ops.countP Op.isCycle

section Run

variable [Resolver ρ ι] {c d : Controller ρ ι}

/-- A run in which no sample is recorded, over a source that stays healthy. -/
structure Frozen (c : Controller ρ ι) (ops : List Op) : Prop where
  calm : ∀ op ∈ ops, op.IsCalm
  healthy : ∀ done, done <+: ops → (c.run done).source.Healthy c.loop.adaptive
  tally : ∀ done, done <+: ops → (c.run done).tally = c.tally

theorem Frozen.prefix {done todo : List Op}
    (h : c.Frozen (done ++ todo)) : c.Frozen done where
  calm := fun op hop => h.calm op (List.mem_append_left _ hop)
  healthy := fun done' hdone => h.healthy done' (hdone.trans (List.prefix_append ..))
  tally := fun done' hdone => h.tally done' (hdone.trans (List.prefix_append ..))

/-- What the other calm operations leave alone. -/
theorem calm_apply {op : Op} (h : op.IsCalm) (hcycle : op.isCycle = false) (c : Controller ρ ι) :
    (c.apply op).loop = c.loop ∧ (c.apply op).running = c.running ∧
      (c.apply op).source.periods = c.source.periods := by
  cases op with
  | turn quotaWindow reportWindow =>
      cases quotaWindow with
      | some u => cases h
      | none =>
          simp only [apply, turn]
          split
          · cases reportWindow with
            | none | some => exact ⟨rfl, rfl, rfl⟩
          · exact ⟨rfl, rfl, rfl⟩
  | adapt => cases hcycle
  | shutdown | override => cases h
  | push | refuse => exact ⟨rfl, rfl, rfl⟩

theorem Progress.apply {n : Nat} (h : c.Progress n d) {op : Op} (hcalm : op.IsCalm)
    (hcycle : op.isCycle = false) : c.Progress n (d.apply op) := by
  obtain ⟨hloop, hrunning, hperiods⟩ := calm_apply hcalm hcycle d
  refine ⟨h.setup.trans (d.sameSetup_apply op), hrunning.trans h.running, ?_, ?_⟩
  · rw [hloop]
    exact h.lastSamples
  · rw [hperiods]
    exact h.periods

/-- A run without samples is as far as its number of cycles. -/
theorem Frozen.progress {ops : List Op} (h : c.Frozen ops) (hv : c.options.Valid)
    (hl : c.loop.options = c.options.period) (hrunning : c.running = true) :
    c.Progress (cycles ops) (c.run ops) := by
  induction ops using List.reverseRecOn with
  | nil => exact ⟨.refl c, hrunning, rfl, fun cls _ => rfl⟩
  | append_singleton ops op ih =>
      have hprogress := ih h.prefix
      have hcalm : op.IsCalm := h.calm op (by simp)
      rw [run_append, cycles, List.countP_append, List.countP_singleton]
      show c.Progress _ ((c.run ops).apply op)
      cases hcycle : op.isCycle with
      | false => exact hprogress.apply hcalm hcycle
      | true =>
          cases op with
          | adapt =>
              exact hprogress.adapt hv hl hrunning (h.healthy [] (List.nil_prefix ..))
                (h.healthy ops (List.prefix_append ..)) (h.tally ops (List.prefix_append ..))
          | push | turn | shutdown | refuse | override => cases hcycle

end Run

omit [DecidableEq ι] in
theorem cycles_replicate (n : Nat) : cycles (.replicate n .adapt) = n := by
  simp [cycles, List.countP_replicate, Op.isCycle]

theorem run_replicate [Resolver ρ ι] {c : Controller ρ ι} (hrunning : c.running = true) (n : Nat) :
    (c.run (.replicate n .adapt)).running = true ∧
      (c.run (.replicate n .adapt)).tally = c.tally ∧
      (c.run (.replicate n .adapt)).source.refuses = c.source.refuses := by
  induction n with
  | zero => exact ⟨hrunning, rfl, rfl⟩
  | succ n ih =>
      obtain ⟨hrunning', htally, hrefuses⟩ := ih
      obtain ⟨-, hrun, htally', hsource⟩ := adapt_of_running hrunning'
      rw [List.replicate_succ', run_append]
      refine ⟨hrun, htally'.trans htally, ?_⟩
      show (Controller.adapt _).2.source.refuses = _
      rw [hsource, AdaptiveLoop.refuses_adapt]
      exact hrefuses

/-- Cycles alone sample nothing and leave a source healthy. -/
theorem frozen_replicate [Resolver ρ ι] {c : Controller ρ ι} (hrunning : c.running = true)
    (hhealthy : c.source.Healthy c.loop.adaptive) (n : Nat) : c.Frozen (.replicate n .adapt) := by
  have hprefix (done : List Op) (h : done <+: .replicate n .adapt) :
      ∃ m, done = .replicate m .adapt :=
    ⟨_, (List.prefix_replicate_iff.1 h).2⟩
  refine ⟨?_, ?_, ?_⟩
  · intro op hop
    rw [List.eq_of_mem_replicate hop]
    trivial
  · intro done hdone
    obtain ⟨m, rfl⟩ := hprefix done hdone
    rw [EventSource.Healthy, (run_replicate hrunning m).2.2]
    exact hhealthy
  · intro done hdone
    obtain ⟨m, rfl⟩ := hprefix done hdone
    exact (run_replicate hrunning m).2.1

/-! ## Main result -/

/-- With valid options, over a healthy source and without quota steps, a class whose samples have
stopped settles: its period after the cycles of a run is given by a sequence that from the second
cycle on moves monotonically towards the target without crossing it. After no more further cycles
than the distance that the first one has left, the sequence is constant, and as close to the target
as the rounding can tell. -/
theorem periods_settle [Resolver ρ ι] {c : Controller ρ ι} (hv : c.options.Valid)
    (hl : c.loop.options = c.options.period) (hrunning : c.running = true)
    (hhealthy : c.source.Healthy c.loop.adaptive) {cls : EventClass}
    (hcls : cls ∈ c.loop.adaptive) :
    let ema := c.options.period.ema
    let target := c.options.period.target (c.tally.metrics c.options.score cls).composite
    ∃ period : Nat → Nat,
      (∀ n, c.Frozen (.replicate n .adapt)) ∧
      (∀ ops, c.Frozen ops → (c.run ops).source.periods.get cls = period (cycles ops)) ∧
      (∀ n, 1 ≤ n →
        period n ≤ period (n + 1) ∧ period (n + 1) ≤ target ∨
          target ≤ period (n + 1) ∧ period (n + 1) ≤ period n) ∧
      ∃ k ≤ (period 1).dist target,
        (∀ n, k + 1 ≤ n → period n = period (k + 1)) ∧
        2 * ema.num * (period (k + 1)).dist target ≤ ema.den := by
  intro ema target
  have hstep (n : Nat) :
      c.periodAfter cls (n + 2) = ema.smooth (c.periodAfter cls (n + 1)) target :=
    Function.iterate_succ_apply' ..
  refine ⟨c.periodAfter cls, frozen_replicate hrunning hhealthy, ?_, ?_, ?_⟩
  · exact fun ops hops => (hops.progress hv hl hrunning).periods cls hcls
  · intro n hn
    obtain ⟨n, rfl⟩ := Nat.exists_eq_add_of_le' hn
    have hbetween : min (c.periodAfter cls (n + 1)) target ≤ c.periodAfter cls (n + 1 + 1) ∧
        c.periodAfter cls (n + 1 + 1) ≤ max (c.periodAfter cls (n + 1)) target := by
      rw [hstep]
      exact Ratio.smooth_between hv.den_pos hv.num_le_den _ _
    omega
  · obtain ⟨k, hk, hstop⟩ :=
      Ratio.exists_smooth_fixed hv.den_pos hv.num_le_den target (c.periodAfter cls 1)
    have hfixed : ema.smooth (c.periodAfter cls (k + 1)) target = c.periodAfter cls (k + 1) := hstop
    refine ⟨k, hk, fun n hn => ?_, Ratio.num_mul_dist_le hv.den_pos hv.num_le_den hfixed⟩
    induction n, hn using Nat.le_induction with
    | base => rfl
    | succ n hn ih =>
        obtain ⟨n, rfl⟩ := Nat.exists_eq_add_of_le' (Nat.le_of_add_left_le hn)
        rw [hstep, ih, hfixed]

/-! ## An idle controller -/

/-- A controller that has started and samples nothing. -/
def idle : Controller PageDirectory UInt64 := started {} { cpus := [0], ringSize := 4096 } {}

/-- Hits of the third level settle within one of their target, as the smoothing moves a period by
three tenths of the distance. -/
theorem idle_settles :
    ∃ p k, p.dist 180200 ≤ 1 ∧
      ∀ n, k ≤ n → (idle.run (.replicate n .adapt)).source.periods.get .l3Hit = p := by
  have hhealthy : idle.source.Healthy idle.loop.adaptive := by
    intro cls _
    rw [show idle.source.refuses = _ from EventSource.refuses_performAll ..]
    exact ⟨rfl, rfl⟩
  have hcls : EventClass.l3Hit ∈ idle.loop.adaptive := by decide
  have htarget : idle.options.period.target
      (idle.tally.metrics idle.options.score .l3Hit).composite = 180200 := by decide
  obtain ⟨period, hfrozen, hperiod, -, k, -, hconst, hclose⟩ :=
    periods_settle (c := idle) (by decide) rfl rfl hhealthy hcls
  have hclose : 2 * 3 * (period (k + 1)).dist 180200 ≤ 10 := htarget ▸ hclose
  refine ⟨period (k + 1), k + 1, by omega, fun n hn => ?_⟩
  rw [hperiod _ (hfrozen n), cycles_replicate, hconst n hn]

end Controller

end AccessSampling
