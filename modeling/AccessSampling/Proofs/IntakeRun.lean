import AccessSampling.Drain
import AccessSampling.Proofs.TallyRun

/-!
# Runs of the intake

What the worker tells its intake is a list of events. Every record among them gets one verdict: it
is accepted as a sample of an item, or it is excluded for one reason. The verdicts settle what a run
adds to the tally and to the counters: an accepted sample goes into the tally, and every verdict
bumps one counter of its own.
-/

namespace AccessSampling

/-! ## Verdicts -/

/-- Why a record counts for no item. -/
inductive Exclusion where
  | unreportable
  | unresolved
  | throttling
  | loss
  | unknownKind
  deriving DecidableEq, Repr

/-- What becomes of a record. -/
inductive Verdict (ι : Type) where
  | accepted (item : ι) (time : UInt64)
  | excluded (why : Exclusion)
  deriving DecidableEq, Repr

namespace Verdict

variable {ρ ι : Type} [Resolver ρ ι]

/-- What becomes of a record under a resolver. -/
def ofRecord (res : ρ) : Record → Verdict ι
  | .sample s =>
    if Resolver.isReportable res s.addr then
      match (Resolver.resolve res s.addr s.task.pid s.time).1 with
      | some item => .accepted item s.time
      | none => .excluded .unresolved
    else .excluded .unreportable
  | .throttle _ | .unthrottle _ => .excluded .throttling
  | .lostSamples _ => .excluded .loss
  | .other _ => .excluded .unknownKind

omit [Resolver ρ ι]

/-- The accepted sample of a class, if the record is accepted. -/
def access? (c : EventClass) : Verdict ι → Option (Access ι)
  | .accepted item time => some { cls := c, item, time }
  | .excluded _ => none

def exclusion? : Verdict ι → Option Exclusion
  | .accepted .. => none
  | .excluded why => some why

end Verdict

/-! ## Counters -/

namespace Counters

/-- The counter of the records that are excluded for a reason. -/
def excluded (k : Counters) : Exclusion → Nat
  | .unreportable => k.unreportable
  | .unresolved => k.unresolved
  | .throttling => k.throttled
  | .loss => k.lost
  | .unknownKind => k.unknown

/-- The counters after one more excluded record. -/
def exclude (k : Counters) : Exclusion → Counters
  | .unreportable => { k with unreportable := k.unreportable + 1 }
  | .unresolved => { k with unresolved := k.unresolved + 1 }
  | .throttling => { k with throttled := k.throttled + 1 }
  | .loss => { k with lost := k.lost + 1 }
  | .unknownKind => { k with unknown := k.unknown + 1 }

theorem excluded_exclude (k : Counters) (w w' : Exclusion) :
    (k.exclude w).excluded w' = k.excluded w' + if w = w' then 1 else 0 := by
  cases w <;> cases w' <;> rfl

/-- Every record counts in exactly one of these. -/
def records (k : Counters) : Nat :=
  k.sampled + k.unreportable + k.unresolved + k.throttled + k.lost + k.unknown

end Counters

/-! ## Answers of the tally -/

/-- An accepted sample, with what the statistics of its item made of its time and what the heap of
its class made of the hit. -/
structure Answer (ι : Type) where
  access : Access ι
  seen : Observation
  admission : Admission
  deriving DecidableEq, Repr

namespace Tally

variable {ι : Type} [DecidableEq ι]

/-- What the tally answers to an accepted sample. -/
def answer (t : Tally ι) (a : Access ι) : Answer ι where
  access := a
  seen := (t.record a.cls a.item a.time).1
  admission := ((t.heaps.get a.cls).recordHit a.item).1

/-- What the tally answers to some accepted samples, one after the other. -/
def answers : Tally ι → List (Access ι) → List (Answer ι)
  | _, [] => []
  | t, a :: as => t.answer a :: answers (t.record a.cls a.item a.time).2 as

theorem answers_append (t : Tally ι) (as bs : List (Access ι)) :
    t.answers (as ++ bs) = t.answers as ++ (t.recordAll as).answers bs := by
  induction as generalizing t with
  | nil => rfl
  | cons a as ih => exact congrArg (_ :: ·) (ih _)

@[simp] theorem length_answers (t : Tally ι) (as : List (Access ι)) :
    (t.answers as).length = as.length := by
  induction as generalizing t with
  | nil => rfl
  | cons a as ih => exact congrArg (· + 1) (ih _)

/-- The answers to the samples of a class are as many as these samples. -/
theorem countP_cls_answers (t : Tally ι) (as : List (Access ι)) (c : EventClass) :
    (t.answers as).countP (·.access.cls = c) = (Access.itemsOf c as).length := by
  induction as generalizing t with
  | nil => rfl
  | cons a as ih =>
      rw [answers, List.countP_cons, ih, Access.itemsOf_cons]
      by_cases h : a.cls = c <;> simp [h, answer]

end Tally

/-- By how much the counters grow with some samples that the tally answered, some excluded records
and some empty visits. -/
structure Counters.Grown {ι : Type} (k k' : Counters) (as : List (Answer ι)) (ws : List Exclusion)
    (skips : Nat) : Prop where
  sampled : k'.sampled = k.sampled + as.length
  dram : k'.dram = k.dram + as.countP (·.access.cls = .dramRead)
  nvm : k'.nvm = k.nvm + as.countP (·.access.cls = .nvmRead)
  write : k'.write = k.write + as.countP (·.access.cls = .memWrite)
  excluded : ∀ w, k'.excluded w = k.excluded w + ws.count w
  skipped : k'.skipped = k.skipped + skips
  outOfOrder : k'.outOfOrder = k.outOfOrder + as.countP (·.seen = .outOfOrder)

namespace Counters.Grown

variable {ι : Type} {k k' k'' : Counters} {as as' : List (Answer ι)} {ws ws' : List Exclusion}
  {skips skips' : Nat}

theorem refl (k : Counters) : Grown k k ([] : List (Answer ι)) [] 0 := by
  constructor <;> simp

theorem trans (h : Grown k k' as ws skips) (h' : Grown k' k'' as' ws' skips') :
    Grown k k'' (as ++ as') (ws ++ ws') (skips + skips') where
  sampled := by rw [h'.sampled, h.sampled, List.length_append, Nat.add_assoc]
  dram := by rw [h'.dram, h.dram, List.countP_append, Nat.add_assoc]
  nvm := by rw [h'.nvm, h.nvm, List.countP_append, Nat.add_assoc]
  write := by rw [h'.write, h.write, List.countP_append, Nat.add_assoc]
  excluded := fun w => by rw [h'.excluded, h.excluded, List.count_append, Nat.add_assoc]
  skipped := by rw [h'.skipped, h.skipped, Nat.add_assoc]
  outOfOrder := by rw [h'.outOfOrder, h.outOfOrder, List.countP_append, Nat.add_assoc]

theorem countSample (k : Counters) (a : Answer ι) :
    Grown k (k.countSample a.access.cls a.seen) [a] [] 0 where
  sampled := rfl
  dram := by simp [Counters.countSample, countIf, List.countP_singleton]
  nvm := by simp [Counters.countSample, countIf, List.countP_singleton]
  write := by simp [Counters.countSample, countIf, List.countP_singleton]
  excluded := fun w => by cases w <;> rfl
  skipped := rfl
  outOfOrder := by simp [Counters.countSample, countIf, List.countP_singleton]

theorem exclude (k : Counters) (w : Exclusion) :
    Grown k (k.exclude w) ([] : List (Answer ι)) [w] 0 where
  sampled := by cases w <;> rfl
  dram := by cases w <;> rfl
  nvm := by cases w <;> rfl
  write := by cases w <;> rfl
  excluded := fun w' => by
    rw [excluded_exclude, List.count_singleton]
    simp only [beq_iff_eq]
  skipped := by cases w <;> rfl
  outOfOrder := by cases w <;> rfl

theorem skip (k : Counters) :
    Grown k { k with skipped := k.skipped + 1 } ([] : List (Answer ι)) [] 1 where
  sampled := rfl
  dram := rfl
  nvm := rfl
  write := rfl
  excluded := fun w => by cases w <;> rfl
  skipped := rfl
  outOfOrder := rfl

/-- Counters that start from zero count what has grown. -/
theorem of_zero (h : Grown {} k as ws skips) :
    k.sampled = as.length ∧ k.dram = as.countP (·.access.cls = .dramRead) ∧
      k.nvm = as.countP (·.access.cls = .nvmRead) ∧
      k.write = as.countP (·.access.cls = .memWrite) ∧ (∀ w, k.excluded w = ws.count w) ∧
      k.skipped = skips ∧ k.outOfOrder = as.countP (·.seen = .outOfOrder) := by
  refine ⟨h.sampled.trans (Nat.zero_add _), h.dram.trans (Nat.zero_add _),
    h.nvm.trans (Nat.zero_add _), h.write.trans (Nat.zero_add _), fun w => ?_,
    h.skipped.trans (Nat.zero_add _), h.outOfOrder.trans (Nat.zero_add _)⟩
  have hzero : ({} : Counters).excluded w = 0 := by cases w <;> rfl
  rw [h.excluded, hzero, Nat.zero_add]

/-- Every sample and every excluded record counts in exactly one of the counters of records. -/
theorem records_eq (h : Grown k k' as ws skips) :
    k'.records = k.records + as.length + ws.length := by
  have hlen : ws.length = ws.count .unreportable + ws.count .unresolved + ws.count .throttling +
      ws.count .loss + ws.count .unknownKind := by
    clear h
    induction ws with
    | nil => rfl
    | cons w ws ih =>
        rw [List.length_cons, ih]
        cases w <;> simp <;> omega
  have h1 : k'.unreportable = _ := h.excluded .unreportable
  have h2 : k'.unresolved = _ := h.excluded .unresolved
  have h3 : k'.throttled = _ := h.excluded .throttling
  have h4 : k'.lost = _ := h.excluded .loss
  have h5 : k'.unknown = _ := h.excluded .unknownKind
  rw [records, h.sampled, h1, h2, h3, h4, h5, hlen]
  simp only [records, Counters.excluded]
  omega

end Counters.Grown

/-! ## Events -/

/-- What the worker tells its intake. -/
inductive Event where
  /-- A ring of a class gave up a record. -/
  | took (id : RingId) (c : EventClass) (r : Record)
  /-- A visit found its ring empty. -/
  | foundEmpty (id : RingId)
  | reported (samplePeriod cpuPermil : Option Nat)
  deriving Repr

namespace Event

def isTook : Event → Bool
  | took .. => true
  | _ => false

def isFoundEmpty : Event → Bool
  | foundEmpty _ => true
  | _ => false

end Event

namespace Intake

variable {ρ ι : Type}

/-! ### Records -/

@[simp] theorem checkMilestone_resolver (i : Intake ρ ι) (m : Nat) :
    (i.checkMilestone m).resolver = i.resolver := by
  unfold checkMilestone
  split <;> rfl

@[simp] theorem checkMilestone_tally (i : Intake ρ ι) (m : Nat) :
    (i.checkMilestone m).tally = i.tally := by
  unfold checkMilestone
  split <;> rfl

@[simp] theorem checkMilestone_counters (i : Intake ρ ι) (m : Nat) :
    (i.checkMilestone m).counters = i.counters := by
  unfold checkMilestone
  split <;> rfl

variable [Resolver ρ ι] [DecidableEq ι]

/-- A record that is accepted is asked of the resolver, and then it is counted. -/
theorem consume_eq_accept {i : Intake ρ ι} {c : EventClass} {r : Record} {item : ι}
    {time : UInt64} (m : Nat) (h : Verdict.ofRecord i.resolver r = .accepted item time) :
    ∃ res, i.consume m c r = { i with resolver := res }.accept m c item time := by
  cases r with
  | sample s =>
      rw [Verdict.ofRecord] at h
      split at h
      · rename_i hreportable
        rw [consume, consumeSample, if_pos hreportable]
        cases hresolve : Resolver.resolve i.resolver s.addr s.task.pid s.time with
        | mk found res =>
            rw [hresolve] at h
            cases found with
            | none => cases h
            | some x =>
                cases h
                exact ⟨res, rfl⟩
      · cases h
  | throttle | unthrottle | lostSamples | other => cases h

/-- A record that is excluded bumps the counter of its reason and changes nothing else, but that the
resolver may have been asked. -/
theorem consume_eq_exclude {i : Intake ρ ι} {r : Record} {w : Exclusion} (m : Nat)
    (c : EventClass) (h : Verdict.ofRecord i.resolver r = .excluded w) :
    ∃ res, i.consume m c r = { i with resolver := res, counters := i.counters.exclude w } := by
  cases r with
  | sample s =>
      rw [Verdict.ofRecord] at h
      split at h
      · rename_i hreportable
        rw [consume, consumeSample, if_pos hreportable]
        cases hresolve : Resolver.resolve i.resolver s.addr s.task.pid s.time with
        | mk found res =>
            rw [hresolve] at h
            cases found with
            | none =>
                cases h
                exact ⟨res, rfl⟩
            | some x => cases h
      · rename_i hreportable
        cases h
        rw [consume, consumeSample, if_neg hreportable]
        exact ⟨i.resolver, rfl⟩
  | throttle | unthrottle | lostSamples | other =>
      cases h
      exact ⟨i.resolver, rfl⟩

/-- An accepted sample goes into the tally, and the counters count it. -/
theorem consume_of_accepted {i : Intake ρ ι} {c : EventClass} {r : Record} {item : ι}
    {time : UInt64} (m : Nat) (h : Verdict.ofRecord i.resolver r = .accepted item time) :
    (i.consume m c r).tally = (i.tally.record c item time).2 ∧
      (i.consume m c r).counters =
        i.counters.countSample c (i.tally.record c item time).1 := by
  obtain ⟨res, haccept⟩ := consume_eq_accept (c := c) m h
  rw [haccept]
  simp only [accept, checkMilestone_tally, checkMilestone_counters, and_self]

/-- An excluded record leaves the tally as it is, and the counter of its reason counts it. -/
theorem consume_of_excluded {i : Intake ρ ι} {r : Record} {w : Exclusion} (m : Nat)
    (c : EventClass) (h : Verdict.ofRecord i.resolver r = .excluded w) :
    (i.consume m c r).tally = i.tally ∧ (i.consume m c r).counters = i.counters.exclude w := by
  obtain ⟨res, hexclude⟩ := consume_eq_exclude m c h
  rw [hexclude]
  exact ⟨rfl, rfl⟩

/-! ### Runs of events -/

/-- The intake after an event. -/
def step (m : Nat) (i : Intake ρ ι) : Event → Intake ρ ι
  | .took _ c r => i.consume m c r
  | .foundEmpty _ => i.countSkip
  | .reported samplePeriod cpuPermil => i.report samplePeriod cpuPermil

/-- The verdicts on the records of some events, each with the class of its ring. A resolver may
remember what it was asked, so each verdict is that of the resolver at its turn. -/
def verdicts (m : Nat) : Intake ρ ι → List Event → List (EventClass × Verdict ι)
  | _, [] => []
  | i, .took id c r :: es =>
    (c, Verdict.ofRecord i.resolver r) :: verdicts m (i.step m (.took id c r)) es
  | i, .foundEmpty id :: es => verdicts m (i.step m (.foundEmpty id)) es
  | i, .reported p q :: es => verdicts m (i.step m (.reported p q)) es

/-- The samples that are accepted in the course of some events. -/
def accesses (m : Nat) (i : Intake ρ ι) (es : List Event) : List (Access ι) :=
  (i.verdicts m es).filterMap fun v => v.2.access? v.1

/-- Why records are excluded in the course of some events. -/
def exclusions (m : Nat) (i : Intake ρ ι) (es : List Event) : List Exclusion :=
  (i.verdicts m es).filterMap fun v => v.2.exclusion?

theorem verdicts_append (m : Nat) (i : Intake ρ ι) (es fs : List Event) :
    i.verdicts m (es ++ fs) = i.verdicts m es ++ (es.foldl (step m) i).verdicts m fs := by
  induction es generalizing i with
  | nil => rfl
  | cons e es ih =>
      cases e with
      | took id c r => exact congrArg (_ :: ·) (ih _)
      | foundEmpty | reported => exact ih _

theorem accesses_append (m : Nat) (i : Intake ρ ι) (es fs : List Event) :
    i.accesses m (es ++ fs) = i.accesses m es ++ (es.foldl (step m) i).accesses m fs := by
  rw [accesses, verdicts_append, List.filterMap_append]
  rfl

theorem length_verdicts (m : Nat) (i : Intake ρ ι) (es : List Event) :
    (i.verdicts m es).length = es.countP Event.isTook := by
  induction es generalizing i with
  | nil => rfl
  | cons e es ih =>
      cases e with
      | took id c r =>
          rw [verdicts, List.length_cons, ih, List.countP_cons_of_pos rfl]
      | foundEmpty | reported =>
          rw [verdicts, ih, List.countP_cons_of_neg (by simp [Event.isTook])]

/-- A record is accepted or excluded, and not both. -/
theorem length_accesses_add_exclusions (m : Nat) (i : Intake ρ ι) (es : List Event) :
    (i.accesses m es).length + (i.exclusions m es).length = es.countP Event.isTook := by
  rw [← length_verdicts m i es, accesses, exclusions]
  induction i.verdicts m es with
  | nil => rfl
  | cons v vs ih =>
      cases hv : v.2 with
      | accepted item time =>
          simp only [List.filterMap_cons, hv, Verdict.access?, Verdict.exclusion?,
            List.length_cons, ← ih]
          omega
      | excluded why =>
          simp only [List.filterMap_cons, hv, Verdict.access?, Verdict.exclusion?,
            List.length_cons, ← ih]
          omega

/-- What one event does to the tally and to the counters. -/
theorem step_spec (m : Nat) (i : Intake ρ ι) (e : Event) :
    (i.step m e).tally = i.tally.recordAll (i.accesses m [e]) ∧
      Counters.Grown i.counters (i.step m e).counters (i.tally.answers (i.accesses m [e]))
        (i.exclusions m [e]) ([e].countP Event.isFoundEmpty) := by
  cases e with
  | took id c r =>
      cases hv : Verdict.ofRecord i.resolver r with
      | accepted item time =>
          have has : i.accesses m [.took id c r] = [⟨c, item, time⟩] := by
            simp [accesses, verdicts, hv, Verdict.access?]
          have hws : i.exclusions m [.took id c r] = [] := by
            simp [exclusions, verdicts, hv, Verdict.exclusion?]
          obtain ⟨htally, hcounters⟩ := consume_of_accepted (c := c) m hv
          rw [has, hws, step, htally, hcounters]
          exact ⟨rfl, .countSample i.counters (i.tally.answer ⟨c, item, time⟩)⟩
      | excluded why =>
          have has : i.accesses m [.took id c r] = [] := by
            simp [accesses, verdicts, hv, Verdict.access?]
          have hws : i.exclusions m [.took id c r] = [why] := by
            simp [exclusions, verdicts, hv, Verdict.exclusion?]
          obtain ⟨htally, hcounters⟩ := consume_of_excluded m c hv
          rw [has, hws, step, htally, hcounters]
          exact ⟨rfl, .exclude i.counters why⟩
  | foundEmpty id => exact ⟨rfl, .skip i.counters⟩
  | reported p q => exact ⟨rfl, .refl i.counters⟩

/-- What some events do to the tally and to the counters: the tally takes the accepted samples, and
every sample, every excluded record and every empty visit bumps its counters. -/
theorem foldl_spec (m : Nat) (i : Intake ρ ι) (es : List Event) :
    (es.foldl (step m) i).tally = i.tally.recordAll (i.accesses m es) ∧
      Counters.Grown i.counters (es.foldl (step m) i).counters
        (i.tally.answers (i.accesses m es)) (i.exclusions m es)
        (es.countP Event.isFoundEmpty) := by
  induction es generalizing i with
  | nil => exact ⟨rfl, .refl i.counters⟩
  | cons e es ih =>
      obtain ⟨htally, hgrown⟩ := i.step_spec m e
      obtain ⟨htallies, hgrowns⟩ := ih (i.step m e)
      have has : i.accesses m (e :: es) = i.accesses m [e] ++ (i.step m e).accesses m es :=
        accesses_append m i [e] es
      have hws : i.exclusions m (e :: es) = i.exclusions m [e] ++ (i.step m e).exclusions m es := by
        rw [exclusions, ← List.singleton_append, verdicts_append, List.filterMap_append]
        rfl
      rw [has, hws, Tally.recordAll_append, Tally.answers_append, ← htally,
        ← List.singleton_append, List.countP_append]
      exact ⟨htallies, hgrown.trans hgrowns⟩

end Intake

end AccessSampling
