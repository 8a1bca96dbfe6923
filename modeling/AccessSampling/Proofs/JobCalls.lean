import AccessSampling.Proofs.BudgetBound
import AccessSampling.Proofs.ControllerAtWork

/-!
# What the jobs call

The answers of the source decide which calls a job still makes and with which periods, but not what
kind of calls they are. A cycle reads and writes adaptive classes and nothing else, and a push
writes to each of its classes the period that the table of the class's tier has at the coarse index.
So what calls of that kind leave alone is left alone throughout the work.
-/

namespace AccessSampling

/-! ## Kinds of calls -/

namespace PeriodTask

variable {α β : Type} {Q : SourceCall → Prop} {post : α → Prop}

/-- Every call that the task may make is of one kind, whatever the answers are, and what the task
comes to meets a condition. -/
def CallsOnly (Q : SourceCall → Prop) (post : α → Prop) : PeriodTask α → Prop
  | done a => post a
  | known _ next => ∀ p, (next p).CallsOnly Q post
  | get c next => Q (.period c) ∧ ∀ answer, (next answer).CallsOnly Q post
  | set c p next => Q (.setPeriod c p) ∧ ∀ answer, (next answer).CallsOnly Q post

theorem CallsOnly.bind {goal : β → Prop} {t : PeriodTask α} {f : α → PeriodTask β}
    (h : t.CallsOnly Q post) (hf : ∀ a, post a → (f a).CallsOnly Q goal) :
    (t >>= f).CallsOnly Q goal := by
  induction t with
  | done a => exact hf a h
  | known c next ih => exact fun p => ih p (h p)
  | get c next ih => exact ⟨h.1, fun answer => ih answer (h.2 answer)⟩
  | set c p next ih => exact ⟨h.1, fun answer => ih answer (h.2 answer)⟩

theorem callsOnly_foldlM {γ : Type} {f : α → γ → PeriodTask α} {xs : List γ} {a : α} (ha : post a)
    (hf : ∀ a, ∀ x ∈ xs, post a → (f a x).CallsOnly Q post) :
    (xs.foldlM f a).CallsOnly Q post := by
  induction xs generalizing a with
  | nil => exact ha
  | cons x xs ih =>
      rw [List.foldlM_cons]
      have hfirst : (f a x).CallsOnly Q post := hf a x (by simp) ha
      exact hfirst.bind fun b hb => ih hb fun b y hy => hf b y (by simp [hy])

theorem CallsOnly.imp {R : SourceCall → Prop} {t : PeriodTask α} (h : t.CallsOnly Q post)
    (himp : ∀ call, Q call → R call) : t.CallsOnly R post := by
  induction t with
  | done a => exact h
  | known c next ih => exact fun p => ih p (h p)
  | get c next ih => exact ⟨himp _ h.1, fun answer => ih answer (h.2 answer)⟩
  | set c p next ih => exact ⟨himp _ h.1, fun answer => ih answer (h.2 answer)⟩

/-- What calls of its kind keep, the task keeps. -/
theorem CallsOnly.safe {P : PeriodWriter → Prop} {t : PeriodTask α} (h : t.CallsOnly Q post)
    (hget : ∀ w c, Q (.period c) → P w → P (w.get c).2)
    (hset : ∀ w c p, Q (.setPeriod c p) → P w → P (w.set c p).2) : t.Safe P post := by
  induction t with
  | done a => exact h
  | known c next ih =>
      intro w _
      exact ih _ (h _)
  | get c next ih =>
      intro w hw
      exact ⟨hget w c h.1 hw, ih _ (h.2 _)⟩
  | set c p next ih =>
      intro w hw
      exact ⟨hset w c p h.1 hw, ih _ (h.2 _)⟩

end PeriodTask

namespace SourceCall

/-- Reads and writes of the periods of some classes. -/
def Tunes (cs : List EventClass) : SourceCall → Prop
  | period c | setPeriod c _ => c ∈ cs
  | openRing .. | enable _ | disable _ => False

/-- Writes of the coarse periods at a step to some classes. -/
def Coarsens (cs : List EventClass) (o : QuotaOptions) (step : Nat) : SourceCall → Prop
  | setPeriod c p => c ∈ cs ∧ o.period? c.tier step = some p
  | openRing .. | enable _ | disable _ | period _ => False

theorem Coarsens.tunes {cs : List EventClass} {o : QuotaOptions} {step : Nat} {call : SourceCall}
    (h : call.Coarsens cs o step) : call.Tunes cs := by
  cases call with
  | setPeriod c p => exact h.1
  | openRing | enable | disable | period => cases h

/-- A class with a coarse period is not of the fixed tier. -/
theorem Coarsens.tier_ne_fixed {cs : List EventClass} {o : QuotaOptions} {step : Nat}
    {call : SourceCall} (h : call.Coarsens cs o step) : call.cls.tier ≠ .fixed := by
  cases call with
  | setPeriod c p =>
      intro hfixed
      have hperiod : o.period? c.tier step = some p := h.2
      rw [show c.tier = .fixed from hfixed] at hperiod
      cases hperiod
  | openRing | enable | disable | period => cases h

end SourceCall

/-! ## The two kinds of jobs -/

namespace AdaptiveLoop

variable {ι : Type} [DecidableEq ι] {l : AdaptiveLoop}

theorem callsOnly_surveyTask (seen : EventClass → Tally ι) (o : ScoreOptions) {s : Findings}
    (hs : ∀ p ∈ s.projections, p.cls ∈ l.adaptive) (c : EventClass) :
    (l.surveyTask seen o s c).CallsOnly (SourceCall.Tunes l.adaptive)
      fun s => ∀ p ∈ s.projections, p.cls ∈ l.adaptive := by
  intro known
  dsimp only
  by_cases hc : c ∈ l.adaptive
  · rw [if_pos hc]
    refine ⟨hc, fun answer => ?_⟩
    cases answer with
    | error r => exact hs
    | ok current =>
        intro p hp
        rcases List.mem_append.1 hp with hp | hp
        · exact hs p hp
        · rw [List.mem_singleton.1 hp]
          exact hc
  · rw [if_neg hc]
    exact hs

theorem callsOnly_retuneTask {cs : List EventClass} (r : Rewrites) {p : Projection}
    (hp : p.cls ∈ cs) : (retuneTask r p).CallsOnly (SourceCall.Tunes cs) fun _ => True := by
  refine ⟨hp, fun answer => ?_⟩
  cases answer with
  | error | ok => trivial

/-- A cycle calls the source for adaptive classes only. -/
theorem callsOnly_cycleTask (l : AdaptiveLoop) (seen : EventClass → Tally ι) (o : ScoreOptions) :
    (l.cycleTask seen o).CallsOnly (SourceCall.Tunes l.adaptive) fun _ => True := by
  have hsurvey : (EventClass.all.foldlM (l.surveyTask seen o) {}).CallsOnly
      (SourceCall.Tunes l.adaptive) fun s => ∀ p ∈ s.projections, p.cls ∈ l.adaptive :=
    PeriodTask.callsOnly_foldlM (by simp) fun s c _ hs => callsOnly_surveyTask seen o hs c
  refine hsurvey.bind fun s hs => ?_
  rcases hbudget : enforceBudget l.options.budget l.options.max s.projections with ⟨budget, qs⟩
  -- the budget changes the periods of the projections, not their classes
  have hqs : ∀ q ∈ qs, q.cls ∈ l.adaptive := by
    intro q hq
    have hcls := map_cls_enforceBudget l.options.budget l.options.max s.projections
    rw [hbudget] at hcls
    have hmem : q.cls ∈ s.projections.map Projection.cls := hcls ▸ List.mem_map_of_mem hq
    obtain ⟨p, hp, heq⟩ := List.mem_map.1 hmem
    rw [← heq]
    exact hs p hp
  have hretune : (qs.foldlM retuneTask { metrics := s.metrics }).CallsOnly
      (SourceCall.Tunes l.adaptive) fun _ => True :=
    PeriodTask.callsOnly_foldlM trivial fun r q hq _ => callsOnly_retuneTask r (hqs q hq)
  exact hretune.bind fun r _ => trivial

end AdaptiveLoop

/-- A push writes coarse periods only. -/
theorem QuotaLoop.callsOnly_pushTask (q : QuotaLoop) (cs : List EventClass) (o : QuotaOptions) :
    (q.pushTask cs o).CallsOnly (SourceCall.Coarsens cs o q.index) fun _ => True := by
  refine PeriodTask.callsOnly_foldlM trivial fun failed c hc _ => ?_
  unfold pushClassTask
  split
  · trivial
  · rename_i p hp
    refine ⟨⟨hc, hp⟩, fun answer => ?_⟩
    cases answer with
    | error | ok => trivial

namespace Controller

variable {ρ ι : Type} [DecidableEq ι]

theorem callsOnly_cycleJob (c : Controller ρ ι) (last : PerClass Nat)
    (seen : EventClass → Tally ι) :
    (c.cycleJob last seen).task.CallsOnly (SourceCall.Tunes c.loop.adaptive) fun _ => True := by
  have hcycle := { c.loop with lastSamples := last }.callsOnly_cycleTask seen c.options.score
  exact hcycle.bind fun _ _ => trivial

theorem callsOnly_pushJob (c : Controller ρ ι) :
    c.pushJob.task.CallsOnly
      (SourceCall.Coarsens c.loop.adaptive c.options.quota c.quota.index) fun _ => True := by
  have hpush := c.quota.callsOnly_pushTask c.loop.adaptive c.options.quota
  exact hpush.bind fun _ _ => trivial

/-- What reads and writes of adaptive classes keep, the jobs of a controller keep. -/
theorem keptByJobs_of_tunes {c : Controller ρ ι} {P : PeriodWriter → Prop}
    (hget : ∀ w, ∀ cls ∈ c.loop.adaptive, P w → P (w.get cls).2)
    (hset : ∀ w, ∀ cls ∈ c.loop.adaptive, ∀ p, P w → P (w.set cls p).2) : c.KeptByJobs P where
  cycle := fun last seen =>
    (c.callsOnly_cycleJob last seen).safe hget fun w cls p hcls => hset w cls hcls p
  push := fun quota => by
    have hpush := { c with quota }.callsOnly_pushJob
    exact hpush.safe (fun _ _ hcall => nomatch hcall) fun w cls p hcall =>
      hset w cls hcall.tunes p

end Controller

/-! ## The calls since some time -/

namespace EventSource

/-- All calls that the source received after some others are of one kind. -/
def ReceivedOnly (Q : SourceCall → Prop) (before : Array LoggedCall) (s : EventSource) : Prop :=
  ∃ es : List LoggedCall, s.calls = before ++ es.toArray ∧ ∀ e ∈ es, Q e.call

variable {Q : SourceCall → Prop} {before : Array LoggedCall} {s : EventSource}

theorem receivedOnly_refl (Q : SourceCall → Prop) (s : EventSource) : s.ReceivedOnly Q s.calls :=
  ⟨[], by simp, by simp⟩

theorem ReceivedOnly.imp {R : SourceCall → Prop} (h : s.ReceivedOnly Q before)
    (himp : ∀ call, Q call → R call) : s.ReceivedOnly R before := by
  obtain ⟨es, hcalls, hes⟩ := h
  exact ⟨es, hcalls, fun e he => himp _ (hes e he)⟩

theorem ReceivedOnly.perform (h : s.ReceivedOnly Q before) {call : SourceCall} (hcall : Q call) :
    (s.perform call).ReceivedOnly Q before := by
  obtain ⟨es, hcalls, hes⟩ := h
  refine ⟨es ++ [s.entry call], ?_, ?_⟩
  · rw [calls_perform, hcalls]
    simp
  · intro e he
    rcases List.mem_append.1 he with he | he
    · exact hes e he
    · rw [List.mem_singleton.1 he]
      exact hcall

end EventSource

/-- A task that nothing interrupts adds calls of its kind to the log. -/
theorem PeriodTask.CallsOnly.receivedOnly_run {α : Type} {Q : SourceCall → Prop} {post : α → Prop}
    {t : PeriodTask α} (h : t.CallsOnly Q post) (w : PeriodWriter) :
    (t.run w).2.source.ReceivedOnly Q w.source.calls := by
  have hsafe : t.Safe (fun w' => w'.source.ReceivedOnly Q w.source.calls) post := by
    refine h.safe ?_ ?_
    · intro w' c hcall hw'
      rw [PeriodWriter.source_get]
      exact hw'.perform hcall
    · intro w' c p hcall hw'
      rw [PeriodWriter.source_set]
      exact hw'.perform hcall
  exact (hsafe.run (EventSource.receivedOnly_refl Q w.source)).2

end AccessSampling
