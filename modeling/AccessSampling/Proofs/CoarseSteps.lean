import AccessSampling.Proofs.CycleRefusals
import AccessSampling.Proofs.KnownPeriods
import AccessSampling.Proofs.QuotaRecovery

/-!
# Coarse steps and their pushes

The coarse index starts at the finest step and moves by one step at most in a window, so it never
leaves the tables, and as both tables have as many entries, no class of either tier is left out of a
push for want of one. A push calls the source once for each of them, in the order of the list, and
counts the calls that are refused.
-/

namespace AccessSampling

namespace QuotaLoop

/-! ## Windows -/

/-- What a window may do to the loop. -/
structure Window (o : QuotaOptions) (q : QuotaLoop) (step : QuotaStep) (q' : QuotaLoop) :
    Prop where
  index_lt : q'.index < o.steps
  near : q'.index ≤ q.index + 1 ∧ q.index ≤ q'.index + 1
  up : ∀ i, step = .up i ↔ q.index < q'.index ∧ i = q'.index
  down : ∀ i, step = .down i ↔ q'.index < q.index ∧ i = q'.index
  above : q.index < q'.index → o.cpuPermil + o.tolerancePermil < q'.usage
  below : q'.index < q.index → q'.usage + o.tolerancePermil < o.cpuPermil

theorem observe_cases (q : QuotaLoop) (u : Usage) (o : QuotaOptions) :
    (o.cpuPermil + o.tolerancePermil < q.estimate u.permil ∧ q.index < o.steps - 1 ∧
        q.observe u o =
          (.up (q.index + 1), { index := q.index + 1, usage := q.estimate u.permil })) ∨
      (q.estimate u.permil + o.tolerancePermil < o.cpuPermil ∧ 0 < q.index ∧
        q.observe u o =
          (.down (q.index - 1), { index := q.index - 1, usage := q.estimate u.permil })) ∨
      q.observe u o = (.hold, { q with usage := q.estimate u.permil }) := by
  unfold observe
  simp only
  split
  · rename_i hup
    exact .inl ⟨hup.1, hup.2, rfl⟩
  · split
    · rename_i hdown
      exact .inr (.inl ⟨hdown.1, hdown.2, rfl⟩)
    · exact .inr (.inr rfl)

theorem window_observe {o : QuotaOptions} {q : QuotaLoop} (h : q.index < o.steps) (u : Usage) :
    Window o q (q.observe u o).1 (q.observe u o).2 := by
  rcases observe_cases q u o with
    ⟨habove, hlast, hobserve⟩ | ⟨hbelow, hfirst, hobserve⟩ | hobserve
  · rw [hobserve]
    exact
      { index_lt := Nat.add_lt_of_lt_sub hlast
        near := ⟨Nat.le_refl _, by simp only; omega⟩
        up := by simp [eq_comm]
        down := by simp
        above := fun _ => habove
        below := fun hlt => absurd hlt (by simp) }
  · rw [hobserve]
    exact
      { index_lt := by simp only; omega
        near := by simp only; omega
        up := by simp only [reduceCtorEq, false_iff]; omega
        down := by simp [eq_comm, hfirst]
        above := fun hlt => absurd hlt (by simp)
        below := fun _ => hbelow }
  · rw [hobserve]
    exact
      { index_lt := h
        near := by simp
        up := by simp
        down := by simp
        above := fun hlt => absurd hlt (Nat.lt_irrefl _)
        below := fun hlt => absurd hlt (Nat.lt_irrefl _) }

/-! ## Pushes -/

/-- A class in a list that is pushed, with the answers of the source when its turn comes. -/
structure Turn where
  cls : EventClass
  refuses : EventClass → SourceOp → Bool

namespace Turn

/-- Whether the class has a table of coarse periods. -/
def coarse (t : Turn) : Bool := decide (t.cls.tier ≠ .fixed)

def refused (t : Turn) : Bool := t.refuses t.cls .setPeriod

/-- The log entry of the class, if it gets its call. -/
def entry (period : EventClass → Nat) (t : Turn) : LoggedCall :=
  { call := .setPeriod t.cls (period t.cls), granted := !t.refused }

end Turn

/-- Some turn of a class writes its period. -/
def Writes (turns : List Turn) (c : EventClass) : Prop :=
  ∃ t ∈ turns, t.cls = c ∧ t.coarse = true ∧ t.refused = false

instance (turns : List Turn) (c : EventClass) : Decidable (Writes turns c) :=
  inferInstanceAs (Decidable (∃ t ∈ turns, _))

def applyTurn (q : QuotaLoop) (o : QuotaOptions) (s : Nat × PeriodWriter) (t : Turn) :
    Nat × PeriodWriter :=
  q.applyClass o (s.1, s.2.withRefusals t.refuses) t.cls

/-- A push in whose course the source may change its answers. -/
def applyTurns (q : QuotaLoop) (w : PeriodWriter) (turns : List Turn) (o : QuotaOptions) :
    Nat × PeriodWriter :=
  turns.foldl (q.applyTurn o) (0, w)

/-- What a push of the given periods does. -/
structure Push (period : EventClass → Nat) (w : PeriodWriter) (turns : List Turn) (failed : Nat)
    (w' : PeriodWriter) : Prop where
  calls : w'.source.calls =
    w.source.calls ++ ((turns.filter Turn.coarse).map (Turn.entry period)).toArray
  failed : failed = (turns.filter Turn.coarse).countP Turn.refused
  periods : ∀ c, w'.source.periods.get c =
    if Writes turns c then period c else w.source.periods.get c
  known : ∀ c, w'.known.get c = if Writes turns c then period c else w.known.get c

section Push

variable {q : QuotaLoop} {o : QuotaOptions} {period : EventClass → Nat} {w w' : PeriodWriter}
  {t : Turn} {turns : List Turn} {failed : Nat} {c : EventClass}

theorem applyClass_of_fixed (h : c.tier = .fixed) (s : Nat × PeriodWriter) :
    q.applyClass o s c = s := by
  simp only [applyClass, h, QuotaOptions.period?_fixed]

theorem applyClass_of_period {p : Nat} (h : o.period? c.tier q.index = some p)
    (s : Nat × PeriodWriter) :
    q.applyClass o s c =
      (if s.2.source.refuses c .setPeriod then s.1 + 1 else s.1, (s.2.set c p).2) := by
  simp only [applyClass, h]
  cases hrefused : s.2.source.refuses c .setPeriod with
  | true =>
      rw [PeriodWriter.set_of_refused hrefused]
      rfl
  | false =>
      rw [PeriodWriter.set_of_granted hrefused]
      rfl

theorem refuses_applyClass (q : QuotaLoop) (o : QuotaOptions) (s : Nat × PeriodWriter)
    (c : EventClass) : (q.applyClass o s c).2.source.refuses = s.2.source.refuses := by
  cases hperiod : o.period? c.tier q.index with
  | none => simp only [applyClass, hperiod]
  | some p =>
      rw [applyClass_of_period hperiod, PeriodWriter.source_set]
      rfl

theorem push_nil (period : EventClass → Nat) (w : PeriodWriter) : Push period w [] 0 w where
  calls := by simp
  failed := rfl
  periods := fun c => by simp [Writes]
  known := fun c => by simp [Writes]

theorem writes_cons : Writes (t :: turns) c ↔
    (t.cls = c ∧ t.coarse = true ∧ t.refused = false) ∨ Writes turns c := by
  simp [Writes]

theorem ite_writes_cons (ht : t.coarse = true) (old : Nat) :
    (if Writes turns c then period c
      else if c = t.cls ∧ t.refused = false then period t.cls else old) =
      if Writes (t :: turns) c then period c else old := by
  by_cases hrest : Writes turns c
  · simp [writes_cons, hrest]
  · by_cases hc : c = t.cls
    · subst hc
      simp [writes_cons, hrest, ht]
    · simp [writes_cons, hrest, hc, Ne.symm hc]

/-- A class without a table has no turn. -/
theorem Push.skip (h : Push period (w.withRefusals t.refuses) turns failed w')
    (ht : t.coarse = false) : Push period w (t :: turns) failed w' := by
  have hwrites : ∀ c, Writes (t :: turns) c ↔ Writes turns c := fun c => by
    simp [writes_cons, ht]
  exact
    { calls := by
        rw [h.calls, List.filter_cons_of_neg (by simp [ht])]
        rfl
      failed := by rw [h.failed, List.filter_cons_of_neg (by simp [ht])]
      periods := fun c => by
        rw [h.periods, if_congr (hwrites c) rfl rfl]
        rfl
      known := fun c => by
        rw [h.known, if_congr (hwrites c) rfl rfl]
        rfl }

/-- A class with a table has one call. -/
theorem Push.turn
    (h : Push period ((w.withRefusals t.refuses).set t.cls (period t.cls)).2 turns failed w')
    (ht : t.coarse = true) :
    Push period w (t :: turns) (failed + if t.refused then 1 else 0) w' where
  calls := by
    rw [h.calls, List.filter_cons_of_pos ht, List.map_cons, PeriodWriter.source_set,
      EventSource.calls_perform, List.toArray_cons, Array.push_eq_append, Array.append_assoc]
    rfl
  failed := by
    rw [h.failed, List.filter_cons_of_pos ht, List.countP_cons]
  periods := fun c => by
    rw [h.periods, PeriodWriter.periods_set]
    exact ite_writes_cons ht _
  known := fun c => by
    rw [h.known, PeriodWriter.known_set]
    exact ite_writes_cons ht _

theorem push_applyTurns
    (hperiod : ∀ c : EventClass, c.tier ≠ .fixed → o.period? c.tier q.index = some (period c))
    (w : PeriodWriter) (turns : List Turn) :
    Push period w turns (q.applyTurns w turns o).1 (q.applyTurns w turns o).2 := by
  -- the count of the calls refused so far goes through the induction
  have hfold : ∀ (n : Nat) (w : PeriodWriter), ∃ failed w',
      turns.foldl (q.applyTurn o) (n, w) = (n + failed, w') ∧ Push period w turns failed w' := by
    induction turns with
    | nil => exact fun n w => ⟨0, w, rfl, push_nil period w⟩
    | cons t turns ih =>
        intro n w
        rw [List.foldl_cons, applyTurn]
        cases ht : t.coarse with
        | false =>
            have hfixed : t.cls.tier = .fixed := by simpa [Turn.coarse] using ht
            rw [applyClass_of_fixed hfixed]
            obtain ⟨failed, w', hrun, hpush⟩ := ih n (w.withRefusals t.refuses)
            exact ⟨failed, w', hrun, hpush.skip ht⟩
        | true =>
            have hcoarse : t.cls.tier ≠ .fixed := by simpa [Turn.coarse] using ht
            rw [applyClass_of_period (hperiod t.cls hcoarse)]
            obtain ⟨failed, w', hrun, hpush⟩ := ih (if t.refused then n + 1 else n)
              ((w.withRefusals t.refuses).set t.cls (period t.cls)).2
            refine ⟨_, w', hrun.trans (Prod.ext ?_ rfl), hpush.turn ht⟩
            split
            · simp only
              omega
            · simp only
              omega
  obtain ⟨failed, w', hrun, hpush⟩ := hfold 0 w
  rw [applyTurns, hrun]
  simpa using hpush

/-- If the source keeps to its answers, the turns are the push. -/
theorem apply_eq_applyTurns (q : QuotaLoop) (w : PeriodWriter) (cs : List EventClass)
    (o : QuotaOptions) :
    q.apply w cs o = q.applyTurns w (cs.map (Turn.mk · w.source.refuses)) o := by
  have hfold : ∀ (n : Nat) (w' : PeriodWriter), w'.source.refuses = w.source.refuses →
      cs.foldl (q.applyClass o) (n, w') =
        (cs.map (Turn.mk · w.source.refuses)).foldl (q.applyTurn o) (n, w') := by
    induction cs with
    | nil => exact fun _ _ _ => rfl
    | cons c cs ih =>
        intro n w' hw'
        have hturn : w'.withRefusals w.source.refuses = w' := by
          rw [PeriodWriter.withRefusals, ← hw']
        rw [List.map_cons, List.foldl_cons, List.foldl_cons, applyTurn, hturn]
        refine ih _ _ ?_
        rw [← hw']
        exact refuses_applyClass q o (n, w') c
  exact hfold 0 w rfl

end Push

/-! ## Runs -/

/-- What a drain worker asks of its quota loop. -/
inductive Move where
  | observe (u : Usage)
  | push (turns : List Turn)

/-- A quota loop with the writer that its pushes go to. -/
structure Worker where
  loop : QuotaLoop := {}
  writer : PeriodWriter

namespace Worker

def apply (o : QuotaOptions) (s : Worker) : Move → Worker
  | .observe u => { s with loop := (s.loop.observe u o).2 }
  | .push turns => { s with writer := (s.loop.applyTurns s.writer turns o).2 }

def run (o : QuotaOptions) (s : Worker) (moves : List Move) : Worker := moves.foldl (apply o) s

theorem index_run_lt {o : QuotaOptions} {s : Worker} (h : s.loop.index < o.steps)
    (moves : List Move) : (s.run o moves).loop.index < o.steps := by
  induction moves generalizing s with
  | nil => exact h
  | cons move moves ih =>
      refine ih ?_
      cases move with
      | observe u => exact (window_observe h u).index_lt
      | push turns => exact h

end Worker

/-- Both tables of valid options have an entry at every step. -/
theorem exists_period {o : Options} (ho : o.Valid) {step : Nat} (h : step < o.quota.steps) :
    ∃ period : EventClass → Nat,
      ∀ c : EventClass, c.tier ≠ .fixed → o.quota.period? c.tier step = some (period c) := by
  have hbase : step < o.quota.basePeriods.length := h
  have hinstr : step < o.quota.instrPeriods.length := ho.length_eq ▸ hbase
  refine ⟨fun c => (o.quota.period? c.tier step).getD 0, fun c hc => ?_⟩
  cases htier : c.tier with
  | base => simp [QuotaOptions.period?, htier, hbase]
  | instr => simp [QuotaOptions.period?, htier, hinstr]
  | fixed => exact absurd htier hc

/-- After any windows and pushes under valid options: the index is within the tables, a window moves
it by one step at most and tells of it, and a push writes to each class of the list that has a table
the entry at the index, in order and whatever the source refuses. -/
theorem coarse_steps {o : Options} (ho : o.Valid) (w : PeriodWriter) (moves : List Move) :
    let s := Worker.run o.quota { writer := w } moves
    s.loop.index < o.quota.steps ∧
    (∀ u, Window o.quota s.loop (s.loop.observe u o.quota).1 (s.loop.observe u o.quota).2) ∧
    (∃ period : EventClass → Nat,
      (∀ c : EventClass, c.tier ≠ .fixed →
        o.quota.period? c.tier s.loop.index = some (period c)) ∧
      ∀ turns, Push period s.writer turns (s.loop.applyTurns s.writer turns o.quota).1
        (s.loop.applyTurns s.writer turns o.quota).2) ∧
    ∀ cs, s.loop.apply s.writer cs o.quota =
      s.loop.applyTurns s.writer (cs.map (Turn.mk · s.writer.source.refuses)) o.quota := by
  intro s
  have hpos : 0 < o.quota.steps := List.length_pos_of_ne_nil ho.basePeriods_ne_nil
  have hindex : s.loop.index < o.quota.steps := Worker.index_run_lt hpos moves
  obtain ⟨period, hperiod⟩ := exists_period ho hindex
  exact ⟨hindex, window_observe hindex,
    ⟨period, hperiod, push_applyTurns hperiod s.writer⟩, fun cs => apply_eq_applyTurns ..⟩

/-- A source that refuses to write the period of stores. -/
def deafStores : EventSource where
  cpus := [0]
  ringSize := 4096
  refuses := fun c op => c = .memWrite && op = .setPeriod

/-- After a busy second the classes get the second entries of their tables, except for stores, whose
write is refused, and the second cache level, which has no table. -/
theorem coarse_steps_deafStores :
    ({} : Options).Valid ∧
      let writer : PeriodWriter := { source := deafStores, known := .replicate 1 }
      let s := Worker.run {} { writer } [.observe busySecond]
      let pushed := s.loop.apply s.writer EventClass.all {}
      s.loop.index = 1 ∧ pushed.1 = 1 ∧
        pushed.2.source.periods.get .dramRead = 10007 ∧
        pushed.2.source.periods.get .l1Miss = 1000003 ∧
        pushed.2.source.periods.get .memWrite = 0 ∧ pushed.2.known.get .memWrite = 1 ∧
        pushed.2.source.periods.get .l2Hit = 0 := by
  have hvalid : ({} : Options).Valid := by decide
  refine ⟨hvalid, ?_⟩
  intro writer s pushed
  obtain ⟨-, -, ⟨period, hperiod, hpush⟩, happly⟩ :=
    coarse_steps hvalid writer [.observe busySecond]
  have h := hpush (EventClass.all.map (Turn.mk · deafStores.refuses))
  rw [show deafStores.refuses = s.writer.source.refuses from rfl, ← happly] at h
  have hdram : some 10007 = some (period .dramRead) := hperiod .dramRead (by decide)
  have hmiss : some 1000003 = some (period .l1Miss) := hperiod .l1Miss (by decide)
  refine ⟨by decide, h.failed.trans (by decide), ?_, ?_, ?_, ?_, ?_⟩
  · rw [h.periods, if_pos (by decide), Option.some.inj hdram]
  · rw [h.periods, if_pos (by decide), Option.some.inj hmiss]
  · rw [h.periods, if_neg (by decide)]
    rfl
  · rw [h.known, if_neg (by decide)]
    rfl
  · rw [h.periods, if_neg (by decide)]
    rfl

end QuotaLoop

end AccessSampling
