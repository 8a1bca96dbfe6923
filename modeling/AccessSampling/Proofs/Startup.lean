import AccessSampling.Controller
import AccessSampling.Proofs.SourceCalls

/-!
# Starting up

A start is a list of calls that the options and the offers of the source fix in advance: every ring
is opened, CPU by CPU, and then every class that got a ring is programmed and enabled. It succeeds
if no call of the list is refused. Otherwise it ends with the first refused call, and all that is
left to do is to disable the classes that were enabled before.
-/

namespace AccessSampling

/-- Whether a class has a ring on some CPU. -/
def EventSource.isAvailable (s : EventSource) (c : EventClass) : Bool :=
  s.cpus.any fun cpu => s.offers cpu c

namespace Controller

/-! ## The calls of a start -/

def openCalls (ps : List (Nat × EventClass)) : List SourceCall :=
  ps.map fun p => .openRing p.1 p.2

/-- The calls that program some classes and enable them. -/
def startCalls (o : Options) (cs : List EventClass) : List SourceCall :=
  cs.flatMap fun c => [.setPeriod c (o.classes.get c).initialPeriod, .enable c]

/-- The classes that have a ring on some CPU of a source. -/
def available (s : EventSource) : List EventClass := EventClass.all.filter s.isAvailable

/-- All calls of a start. -/
def startup (o : Options) (s : EventSource) : List SourceCall :=
  openCalls (ringTable s.cpus) ++ startCalls o (available s)

/-- The classes that some calls enable. -/
def enabledBy (calls : List SourceCall) : List EventClass :=
  calls.filterMap fun
    | .enable c => some c
    | _ => none

theorem startCalls_cons (o : Options) (c : EventClass) (cs : List EventClass) :
    startCalls o (c :: cs) =
      .setPeriod c (o.classes.get c).initialPeriod :: .enable c :: startCalls o cs :=
  rfl

theorem enabledBy_append (calls more : List SourceCall) :
    enabledBy (calls ++ more) = enabledBy calls ++ enabledBy more :=
  List.filterMap_append

theorem mem_enabledBy {calls : List SourceCall} {c : EventClass} :
    c ∈ enabledBy calls ↔ .enable c ∈ calls := by
  rw [enabledBy, List.mem_filterMap]
  constructor
  · rintro ⟨call, hcall, h⟩
    cases call with
    | enable c' => exact Option.some.inj h ▸ hcall
    | openRing | disable | setPeriod | period => cases h
  · intro h
    exact ⟨_, h, rfl⟩

theorem enabledBy_of_open {calls : List SourceCall} (h : ∀ x ∈ calls, x.op = .openRing) :
    enabledBy calls = [] := by
  refine List.eq_nil_iff_forall_not_mem.2 fun c hc => ?_
  cases h _ (mem_enabledBy.1 hc)

theorem mem_available {s : EventSource} {c : EventClass} :
    c ∈ available s ↔ s.isAvailable c = true := by
  simp [available]

theorem mem_ringTable {cpus : List Nat} {p : Nat × EventClass} :
    p ∈ ringTable cpus ↔ p.1 ∈ cpus := by
  simp only [ringTable, List.mem_flatMap, List.mem_map, EventClass.mem_all, true_and]
  constructor
  · rintro ⟨cpu, hcpu, c, rfl⟩
    exact hcpu
  · intro h
    exact ⟨p.1, h, p.2, rfl⟩

theorem mem_startCalls {o : Options} {cs : List EventClass} {x : SourceCall} :
    x ∈ startCalls o cs ↔
      ∃ c ∈ cs, x = .setPeriod c (o.classes.get c).initialPeriod ∨ x = .enable c := by
  simp [startCalls]

/-- What it takes for no call of a start to be refused. -/
theorem startup_granted_iff {o : Options} {s : EventSource} :
    (∀ x ∈ startup o s, s.grants x = true) ↔
      (∀ cpu ∈ s.cpus, ∀ c, s.refuses c .openRing = false) ∧
        ∀ c ∈ available s, s.refuses c .setPeriod = false ∧ s.refuses c .enable = false := by
  constructor
  · intro h
    refine ⟨fun cpu hcpu c => ?_, fun c hc => ⟨?_, ?_⟩⟩
    · have hmem : SourceCall.openRing cpu c ∈ startup o s :=
        List.mem_append_left _ (List.mem_map.2 ⟨(cpu, c), mem_ringTable.2 hcpu, rfl⟩)
      exact EventSource.grants_eq_true.1 (h _ hmem)
    · exact EventSource.grants_eq_true.1
        (h _ (List.mem_append_right _ (mem_startCalls.2 ⟨c, hc, .inl rfl⟩)))
    · exact EventSource.grants_eq_true.1
        (h _ (List.mem_append_right _ (mem_startCalls.2 ⟨c, hc, .inr rfl⟩)))
  · rintro ⟨hopen, hstart⟩ x hx
    rcases List.mem_append.1 hx with hx | hx
    · obtain ⟨p, hp, rfl⟩ := List.mem_map.1 hx
      exact EventSource.grants_eq_true.2 (hopen p.1 (mem_ringTable.1 hp) p.2)
    · obtain ⟨c, hc, rfl | rfl⟩ := mem_startCalls.1 hx
      · exact EventSource.grants_eq_true.2 (hstart c hc).1
      · exact EventSource.grants_eq_true.2 (hstart c hc).2

/-- The rings are opened before any class is programmed. -/
theorem op_openCalls {ps : List (Nat × EventClass)} {x : SourceCall} (h : x ∈ openCalls ps) :
    x.op = .openRing := by
  obtain ⟨p, -, rfl⟩ := List.mem_map.1 h
  rfl

theorem op_startCalls {o : Options} {cs : List EventClass} {x : SourceCall}
    (h : x ∈ startCalls o cs) : (x.op = .setPeriod ∨ x.op = .enable) ∧ x.cls ∈ cs := by
  obtain ⟨c, hc, rfl | rfl⟩ := mem_startCalls.1 h
  · exact ⟨.inl rfl, hc⟩
  · exact ⟨.inr rfl, hc⟩

theorem op_startup {o : Options} {s : EventSource} {x : SourceCall} (h : x ∈ startup o s) :
    x.op = .openRing ∨ (x.op = .setPeriod ∨ x.op = .enable) ∧ x.cls ∈ available s :=
  (List.mem_append.1 h).imp op_openCalls op_startCalls

theorem enabledBy_startCalls (o : Options) (cs : List EventClass) :
    enabledBy (startCalls o cs) = cs := by
  induction cs with
  | nil => rfl
  | cons c cs ih =>
      rw [startCalls_cons]
      exact congrArg (c :: ·) ih

theorem enabledBy_startup (o : Options) (s : EventSource) :
    enabledBy (startup o s) = available s := by
  rw [startup, enabledBy_append, enabledBy_of_open fun _ => op_openCalls, enabledBy_startCalls,
    List.nil_append]

/-! ## Opening the rings -/

/-- The entries of the rings that a source offers. -/
def ringsOf (s : EventSource) (ps : List (Nat × EventClass)) : List Ring :=
  (ps.filter fun p => s.offers p.1 p.2).map fun p =>
    { cpu := p.1, cls := p.2, id := .hardware p.1 p.2 }

theorem openRings_of_granted {ps : List (Nat × EventClass)} {s : EventSource}
    (h : ∀ p ∈ ps, s.refuses p.2 .openRing = false) :
    openRings ps s = (.ok (ringsOf s ps), s.performAll (openCalls ps)) := by
  induction ps generalizing s with
  | nil => rfl
  | cons p ps ih =>
      have hrest := ih (s := s.perform (.openRing p.1 p.2)) fun q hq => h q (by simp [hq])
      rw [openRings, EventSource.openRing_of_granted (h p (by simp))]
      cases hoffers : s.offers p.1 p.2 with
      | true =>
          simp only [if_true]
          rw [hrest]
          simp only [ringsOf, List.filter_cons, hoffers, if_true, List.map_cons]
          rfl
      | false =>
          simp only [if_false, Bool.false_eq_true]
          rw [hrest]
          simp only [ringsOf, List.filter_cons, hoffers, if_false, Bool.false_eq_true]
          rfl

theorem openRings_of_refused {done rest : List (Nat × EventClass)} {p : Nat × EventClass}
    {s : EventSource} (hdone : ∀ q ∈ done, s.refuses q.2 .openRing = false)
    (hp : s.refuses p.2 .openRing = true) :
    openRings (done ++ p :: rest) s =
      (.error (SourceCall.openRing p.1 p.2).refusal, s.performAll (openCalls (done ++ [p]))) := by
  induction done generalizing s with
  | nil =>
      rw [List.nil_append, openRings, EventSource.openRing_of_refused hp]
      rfl
  | cons q done ih =>
      have hrest := ih (s := s.perform (.openRing q.1 q.2)) (fun r hr => hdone r (by simp [hr])) hp
      rw [List.cons_append, openRings, EventSource.openRing_of_granted (hdone q (by simp))]
      cases s.offers q.1 q.2 with
      | true =>
          simp only [if_true]
          rw [hrest]
          rfl
      | false =>
          simp only [if_false, Bool.false_eq_true]
          rw [hrest]
          rfl

/-- The rings that were opened are those of the available classes. -/
theorem availableClasses_ringsOf (s : EventSource) :
    availableClasses (ringsOf s (ringTable s.cpus)) = available s := by
  refine List.filter_congr fun c _ => Bool.eq_iff_iff.2 ?_
  simp only [EventSource.isAvailable, ringsOf, List.any_eq_true, List.mem_map, List.mem_filter,
    mem_ringTable, decide_eq_true_eq]
  constructor
  · rintro ⟨r, ⟨p, ⟨hcpu, hoffers⟩, rfl⟩, rfl⟩
    exact ⟨p.1, hcpu, hoffers⟩
  · rintro ⟨cpu, hcpu, hoffers⟩
    exact ⟨_, ⟨(cpu, c), ⟨hcpu, hoffers⟩, rfl⟩, rfl⟩

/-! ## Programming and enabling -/

/-- The periods that a start takes for known. -/
def initialPeriods (o : Options) : PerClass Nat := o.classes.map ClassOptions.initialPeriod

/-- A granted write of the initial period tells nothing new. -/
theorem set_initialPeriod {o : Options} {s : EventSource} {c : EventClass}
    (h : s.refuses c .setPeriod = false) :
    PeriodWriter.set ⟨s, initialPeriods o⟩ c (o.classes.get c).initialPeriod =
      (.ok (),
        ⟨s.perform (.setPeriod c (o.classes.get c).initialPeriod), initialPeriods o⟩) := by
  have hget : (initialPeriods o).get c = (o.classes.get c).initialPeriod := PerClass.get_map ..
  have hself := PerClass.set_get_self (initialPeriods o) c
  rw [hget] at hself
  rw [PeriodWriter.set_eq, EventSource.answer_of_granted h]
  simp only [hself, ite_self]

section StartClasses

variable {o : Options} {c : EventClass} {cs : List EventClass} {s : EventSource}

/-- A class whose calls are granted is enabled, and the start goes on. -/
theorem startClasses_cons (hset : s.refuses c .setPeriod = false)
    (henable : s.refuses c .enable = false) :
    startClasses o (c :: cs) ⟨s, initialPeriods o⟩ =
      ((startClasses o cs ⟨s.performAll (startCalls o [c]), initialPeriods o⟩).1,
        c :: (startClasses o cs ⟨s.performAll (startCalls o [c]), initialPeriods o⟩).2.1,
        (startClasses o cs ⟨s.performAll (startCalls o [c]), initialPeriods o⟩).2.2) := by
  rw [startClasses, set_initialPeriod hset]
  simp only
  rw [EventSource.enable_eq, EventSource.answer_of_granted henable]
  rfl

theorem startClasses_cons_of_refused_period (hset : s.refuses c .setPeriod = true) :
    startClasses o (c :: cs) ⟨s, initialPeriods o⟩ =
      (.error { cls := c, op := .setPeriod }, [],
        ⟨s.perform (.setPeriod c (o.classes.get c).initialPeriod), initialPeriods o⟩) := by
  rw [startClasses, PeriodWriter.set_of_refused hset, EventSource.perform_of_refused hset]

theorem startClasses_cons_of_refused_enable (hset : s.refuses c .setPeriod = false)
    (henable : s.refuses c .enable = true) :
    startClasses o (c :: cs) ⟨s, initialPeriods o⟩ =
      (.error { cls := c, op := .enable }, [],
        ⟨s.performAll (startCalls o [c]), initialPeriods o⟩) := by
  rw [startClasses, set_initialPeriod hset]
  simp only
  rw [EventSource.enable_eq, EventSource.answer_of_refused henable]
  rfl

theorem startClasses_of_granted
    (h : ∀ c ∈ cs, s.refuses c .setPeriod = false ∧ s.refuses c .enable = false) :
    startClasses o cs ⟨s, initialPeriods o⟩ =
      (.ok (), cs, ⟨s.performAll (startCalls o cs), initialPeriods o⟩) := by
  induction cs generalizing s with
  | nil => rfl
  | cons c cs ih =>
      obtain ⟨hset, henable⟩ := h c (by simp)
      rw [startClasses_cons hset henable, ih fun d hd => ?_]
      · rfl
      · rw [EventSource.refuses_performAll]
        exact h d (by simp [hd])

/-- The start ends with the first refused call, and reports the classes that were enabled before. -/
theorem startClasses_of_refused {done rest : List SourceCall} {call : SourceCall}
    (hcalls : startCalls o cs = done ++ call :: rest) (hdone : ∀ x ∈ done, s.grants x = true)
    (hcall : s.grants call = false) :
    startClasses o cs ⟨s, initialPeriods o⟩ =
      (.error call.refusal, enabledBy done,
        ⟨s.performAll (done ++ [call]), initialPeriods o⟩) := by
  induction cs generalizing s done with
  | nil => simp [startCalls] at hcalls
  | cons c cs ih =>
      rw [startCalls_cons] at hcalls
      match done with
      | [] =>
          rw [List.nil_append, List.cons.injEq] at hcalls
          obtain ⟨rfl, -⟩ := hcalls
          exact startClasses_cons_of_refused_period (EventSource.grants_eq_false.1 hcall)
      | [x] =>
          simp only [List.cons_append, List.nil_append, List.cons.injEq] at hcalls
          obtain ⟨rfl, rfl, -⟩ := hcalls
          have hset : s.refuses c .setPeriod = false :=
            EventSource.grants_eq_true.1 (hdone _ List.mem_cons_self)
          exact startClasses_cons_of_refused_enable hset (EventSource.grants_eq_false.1 hcall)
      | x :: y :: done =>
          -- the class is enabled, so the refused call is among those of the classes to come
          simp only [List.cons_append, List.cons.injEq] at hcalls
          obtain ⟨rfl, rfl, hcalls⟩ := hcalls
          have hset : s.refuses c .setPeriod = false :=
            EventSource.grants_eq_true.1 (hdone _ List.mem_cons_self)
          have henable : s.refuses c .enable = false :=
            EventSource.grants_eq_true.1 (hdone (.enable c) (by simp))
          rw [startClasses_cons hset henable,
            ih (s := s.performAll (startCalls o [c])) hcalls (fun z hz => hdone z (by simp [hz]))
              hcall]
          rfl

end StartClasses

/-! ## The start -/

theorem stopClasses_eq (cs : List EventClass) (s : EventSource) :
    stopClasses cs s = s.performAll (cs.map .disable) := by
  induction cs generalizing s with
  | nil => rfl
  | cons c cs ih =>
      show stopClasses cs (s.disable c).2 = _
      rw [EventSource.disable_eq, ih]
      rfl

section Init

variable {ρ ι : Type}

/-- The controller after a start that nothing hindered. -/
def started (o : Options) (s : EventSource) (resolver : ρ) : Controller ρ ι where
  options := o
  writer := { source := s.performAll (startup o s), known := initialPeriods o }
  loop :=
    { options := o.period
      adaptive := o.adaptiveClasses.filter (· ∈ available s) }
  drain :=
    { store := .ofSize s.ringSize
      rings := ringsOf s (ringTable s.cpus)
      intake := { resolver, tally := .empty o.heapCapacity } }
  enabled := available s

variable {o : Options} {s : EventSource} {resolver : ρ}

theorem init_of_fault {fault : OptionFault} (h : o.fault? = some fault) :
    init (ι := ι) o s resolver = .error { error := .invalidOptions fault, source := s } := by
  rw [init, h]

/-- Nothing comes after a ring that cannot be opened. -/
theorem init_of_refused_open (hv : o.Valid) {done rest : List SourceCall} {call : SourceCall}
    (hcalls : openCalls (ringTable s.cpus) = done ++ call :: rest)
    (hdone : ∀ x ∈ done, s.grants x = true) (hcall : s.grants call = false) :
    init (ι := ι) o s resolver =
      .error { error := .eventSource call.refusal, source := s.performAll (done ++ [call]) } := by
  obtain ⟨ps, qs, hps, rfl, hqs⟩ := List.map_eq_append_iff.1 hcalls
  obtain ⟨p, ps', rfl, rfl, rfl⟩ := List.map_eq_cons_iff.1 hqs
  have hopen : openRings (ps ++ p :: ps') s = _ := openRings_of_refused
    (fun q hq => EventSource.grants_eq_true.1 (hdone _ (List.mem_map_of_mem hq)))
    (EventSource.grants_eq_false.1 hcall)
  rw [init, Options.fault?_eq_none_iff.2 hv, hps, hopen]
  simp [openCalls]

/-- A start whose rings are all open goes on with the classes that have one. -/
theorem init_of_open (hv : o.Valid)
    (hopen : ∀ x ∈ openCalls (ringTable s.cpus), s.grants x = true) :
    init (ι := ι) o s resolver =
      match startClasses o (available s)
          ⟨s.performAll (openCalls (ringTable s.cpus)), initialPeriods o⟩ with
      | (.error r, enabled, w) =>
        .error { error := .eventSource r, source := stopClasses enabled w.source }
      | (.ok (), enabled, w) => .ok { started o s resolver with writer := w, enabled } := by
  have hrings : openRings (ringTable s.cpus) s = _ := openRings_of_granted fun p hp =>
    EventSource.grants_eq_true.1 (hopen _ (List.mem_map_of_mem hp))
  rw [init, Options.fault?_eq_none_iff.2 hv, hrings]
  simp only
  rw [availableClasses_ringsOf]
  rw [EventSource.ringSize_performAll]
  rfl

theorem init_of_refused_start (hv : o.Valid)
    (hopen : ∀ x ∈ openCalls (ringTable s.cpus), s.grants x = true)
    {done rest : List SourceCall} {call : SourceCall}
    (hcalls : startCalls o (available s) = done ++ call :: rest)
    (hdone : ∀ x ∈ done, s.grants x = true) (hcall : s.grants call = false) :
    init (ι := ι) o s resolver =
      .error
        { error := .eventSource call.refusal
          source := s.performAll (openCalls (ringTable s.cpus) ++ done ++ [call] ++
            (enabledBy done).map .disable) } := by
  have hgrants (x : SourceCall) :
      (s.performAll (openCalls (ringTable s.cpus))).grants x = s.grants x := by
    rw [EventSource.grants, EventSource.refuses_performAll]
    rfl
  rw [init_of_open hv hopen,
    startClasses_of_refused hcalls (fun x hx => (hgrants x).trans (hdone x hx))
      ((hgrants call).trans hcall)]
  simp only [stopClasses_eq, ← EventSource.performAll_append, List.append_assoc]

theorem init_of_granted (hv : o.Valid) (h : ∀ x ∈ startup o s, s.grants x = true) :
    init (ι := ι) o s resolver = .ok (started o s resolver) := by
  rw [init_of_open hv fun x hx => h x (List.mem_append_left _ hx), startClasses_of_granted]
  · simp only [← EventSource.performAll_append]
    rfl
  · rw [EventSource.refuses_performAll]
    exact (startup_granted_iff.1 h).2

/-- A start ends with the first refused call, and disables what it has enabled. -/
theorem init_of_refused (hv : o.Valid) {done rest : List SourceCall} {call : SourceCall}
    (hcalls : startup o s = done ++ call :: rest) (hdone : ∀ x ∈ done, s.grants x = true)
    (hcall : s.grants call = false) :
    init (ι := ι) o s resolver =
      .error
        { error := .eventSource call.refusal
          source := s.performAll (done ++ [call] ++ (enabledBy done).map .disable) } := by
  have hopens : enabledBy (openCalls (ringTable s.cpus)) = [] :=
    enabledBy_of_open fun _ => op_openCalls
  rcases List.append_eq_append_iff.1 hcalls with ⟨done', rfl, hstart⟩ | ⟨todo, hopen, hrest⟩
  · rw [init_of_refused_start hv (fun x hx => hdone x (List.mem_append_left _ hx)) hstart
      (fun x hx => hdone x (List.mem_append_right _ hx)) hcall, enabledBy_append, hopens,
      List.nil_append]
  · cases todo with
    | nil =>
        -- the refused call is the first one after the rings
        rw [List.append_nil] at hopen
        subst hopen
        have hfirst : startCalls o (available s) = [] ++ call :: rest := hrest.symm
        rw [init_of_refused_start hv hdone hfirst (by simp) hcall, hopens, List.append_nil]
        rfl
    | cons x todo =>
        obtain ⟨rfl, -⟩ := List.cons.inj hrest
        have hnone : enabledBy done = [] :=
          enabledBy_of_open fun y hy => op_openCalls (hopen ▸ List.mem_append_left _ hy)
        rw [init_of_refused_open hv hopen hdone hcall, hnone, List.map_nil, List.append_nil]

/-- All that a start can come to. -/
theorem init_cases (o : Options) (s : EventSource) (resolver : ρ) :
    (∃ fault, o.fault? = some fault ∧
        init (ι := ι) o s resolver =
          .error { error := .invalidOptions fault, source := s }) ∨
      (o.Valid ∧ (∀ x ∈ startup o s, s.grants x = true) ∧
        init (ι := ι) o s resolver = .ok (started o s resolver)) ∨
      (o.Valid ∧ ∃ done call rest, startup o s = done ++ call :: rest ∧
        (∀ x ∈ done, s.grants x = true) ∧ s.grants call = false ∧
        init (ι := ι) o s resolver =
          .error
            { error := .eventSource call.refusal
              source := s.performAll (done ++ [call] ++ (enabledBy done).map .disable) }) := by
  cases hfault : o.fault? with
  | some fault => exact .inl ⟨fault, rfl, init_of_fault hfault⟩
  | none =>
      have hv : o.Valid := Options.fault?_eq_none_iff.1 hfault
      rcases s.exists_first_refused (startup o s) with
        hall | ⟨done, call, rest, hcalls, hdone, hcall⟩
      · exact .inr (.inl ⟨hv, hall, init_of_granted hv hall⟩)
      · exact .inr (.inr ⟨hv, done, call, rest, hcalls, hdone, hcall,
          init_of_refused hv hcalls hdone hcall⟩)

/-- A start that succeeds is one that nothing hindered. -/
theorem eq_started_of_init {c : Controller ρ ι} (h : init o s resolver = .ok c) :
    o.Valid ∧ (∀ x ∈ startup o s, s.grants x = true) ∧ c = started o s resolver := by
  rcases init_cases (ι := ι) o s resolver with
    ⟨fault, -, hout⟩ | ⟨hv, hall, hout⟩ | ⟨-, done, call, rest, -, -, -, hout⟩
  · cases hout.symm.trans h
  · exact ⟨hv, hall, Except.ok.inj (h.symm.trans hout)⟩
  · cases hout.symm.trans h

/-- A controller that has only started. -/
structure Fresh (o : Options) (c : Controller ρ ι) : Prop where
  options : c.options = o
  metrics : c.metrics = .replicate {}
  counters : c.counters = {}
  running : c.running = true

theorem fresh_of_init {c : Controller ρ ι} (h : init o s resolver = .ok c) : c.Fresh o := by
  obtain ⟨-, -, rfl⟩ := eq_started_of_init h
  exact ⟨rfl, rfl, rfl, rfl⟩

/-- No ring is opened after a class was programmed. -/
theorem op_of_refused_open {done rest : List SourceCall} {call : SourceCall}
    (hcalls : startup o s = done ++ call :: rest) (hcall : call.op = .openRing) :
    ∀ x ∈ done, x.op = .openRing := by
  rcases List.append_eq_append_iff.1 hcalls with ⟨done', -, hstart⟩ | ⟨todo, hopen, -⟩
  · have hmem : call ∈ startCalls o (available s) := by simp [hstart]
    rcases (op_startCalls hmem).1 with h | h
    · cases h.symm.trans hcall
    · cases h.symm.trans hcall
  · exact fun x hx => op_openCalls (hopen ▸ List.mem_append_left _ hx)

/-! ## What the source is left with -/

theorem periods_startCalls {s : EventSource} {cs : List EventClass}
    (h : ∀ c ∈ cs, s.refuses c .setPeriod = false) (c : EventClass) :
    (s.performAll (startCalls o cs)).periods.get c =
      if c ∈ cs then (o.classes.get c).initialPeriod else s.periods.get c := by
  induction cs generalizing s with
  | nil => rfl
  | cons d cs ih =>
      have hd : s.refuses d .setPeriod = false := h d (by simp)
      have hrest := ih (s := s.performAll (startCalls o [d])) fun e he => by
        rw [EventSource.refuses_performAll]
        exact h e (by simp [he])
      -- enabling leaves the period as it was written
      have hone : (s.performAll (startCalls o [d])).periods.get c =
          if c = d then (o.classes.get d).initialPeriod else s.periods.get c := by
        show ((s.perform (.setPeriod d _)).perform (.enable d)).periods.get c = _
        rw [EventSource.periods_perform, EventSource.perform_of_granted hd]
        exact PerClass.get_set ..
      rw [startCalls_cons]
      show ((s.performAll (startCalls o [d])).performAll (startCalls o cs)).periods.get c = _
      rw [hrest, hone]
      by_cases hc : c = d
      · simp [hc]
      · simp [hc]

/-- A start that nothing hinders programs each available class with its initial period. -/
theorem periods_startup (hgranted : ∀ x ∈ startup o s, s.grants x = true) (c : EventClass) :
    (s.performAll (startup o s)).periods.get c =
      if s.isAvailable c then (o.classes.get c).initialPeriod else s.periods.get c := by
  have hset := (startup_granted_iff.1 hgranted).2
  rw [startup, EventSource.performAll_append, periods_startCalls, EventSource.periods_performAll]
  · simp only [mem_available]
  · intro x hx
    rw [op_openCalls hx]
    decide
  · intro d hd
    rw [EventSource.refuses_performAll]
    exact (hset d hd).1

/-- The calls of a start disable nothing. -/
theorem op_ne_disable {x : SourceCall} (hx : x ∈ startup o s) : x.op ≠ .disable := by
  intro h
  rcases op_startup hx with hop | ⟨hop | hop, -⟩
  · cases h.symm.trans hop
  · cases h.symm.trans hop
  · cases h.symm.trans hop

/-- Only available classes are programmed and enabled. -/
theorem cls_of_startup {x : SourceCall} (hx : x ∈ startup o s)
    (hop : x.op = .setPeriod ∨ x.op = .enable) : x.cls ∈ available s := by
  rcases op_startup hx with h | h
  · rcases hop with hop | hop
    · cases h.symm.trans hop
    · cases h.symm.trans hop
  · exact h.2

theorem enabled_startup (hs : s.enabled = .replicate false)
    (hgranted : ∀ x ∈ startup o s, s.grants x = true) (c : EventClass) :
    (s.performAll (startup o s)).enabled.get c = true ↔ c ∈ available s := by
  rw [EventSource.enabled_performAll hgranted fun _ => op_ne_disable, ← mem_enabledBy,
    enabledBy_startup, hs]
  simp

/-- After the unwinding, a class is enabled if it was enabled by the start and refuses to be
disabled. -/
theorem enabled_unwound (hs : s.enabled = .replicate false) {done rest : List SourceCall}
    {call : SourceCall} (hcalls : startup o s = done ++ call :: rest)
    (hdone : ∀ x ∈ done, s.grants x = true) (hcall : s.grants call = false) (c : EventClass) :
    (s.performAll (done ++ [call] ++ (enabledBy done).map .disable)).enabled.get c = true ↔
      c ∈ enabledBy done ∧ s.refuses c .disable = true := by
  have hop : ∀ x ∈ done, x.op ≠ .disable :=
    fun x hx => op_ne_disable (o := o) (s := s) (hcalls ▸ List.mem_append_left _ hx)
  -- the refused call leaves the classes as they were
  have hlast : (s.performAll (done ++ [call])).enabled = (s.performAll done).enabled := by
    rw [EventSource.performAll_append]
    show ((s.performAll done).perform call).enabled = _
    rw [EventSource.perform_of_refused]
    · rfl
    · rw [EventSource.refuses_performAll]
      exact EventSource.grants_eq_false.1 hcall
  rw [EventSource.performAll_append, EventSource.enabled_performAll_disable, hlast,
    EventSource.enabled_performAll hdone hop, EventSource.refuses_performAll, ← mem_enabledBy, hs]
  simp only [PerClass.get_replicate, Bool.false_eq_true, false_or]
  exact ⟨fun h => ⟨h.1, h.2 h.1⟩, fun h => ⟨h.1, fun _ => h.2⟩⟩

/-- A start enables no class twice. -/
theorem nodup_enabledBy {done rest : List SourceCall} {call : SourceCall}
    (hcalls : startup o s = done ++ call :: rest) : (enabledBy done).Nodup := by
  have hall : enabledBy done ++ enabledBy (call :: rest) = available s := by
    rw [← enabledBy_append, ← hcalls, enabledBy_startup]
  have hnodup : (available s).Nodup := EventClass.nodup_all.filter _
  rw [← hall] at hnodup
  exact (List.nodup_append.1 hnodup).1

/-! ## Main result -/

theorem init_eq_ok_iff (o : Options) (s : EventSource) (resolver : ρ) :
    (∃ c, init (ι := ι) o s resolver = .ok c) ↔
      o.Valid ∧ (∀ cpu ∈ s.cpus, ∀ cls, s.refuses cls .openRing = false) ∧
        ∀ cls ∈ available s, s.refuses cls .setPeriod = false ∧ s.refuses cls .enable = false := by
  rw [← startup_granted_iff]
  rcases init_cases (ι := ι) o s resolver with
    ⟨fault, hfault, hout⟩ | ⟨hv, hall, hout⟩ | ⟨-, done, call, rest, hcalls, -, hcall, hout⟩
  · refine iff_of_false (by simp [hout]) ?_
    rintro ⟨hv, -⟩
    rw [Options.fault?_eq_none_iff.2 hv] at hfault
    cases hfault
  · exact iff_of_true ⟨_, hout⟩ ⟨hv, hall⟩
  · refine iff_of_false (by simp [hout]) ?_
    rintro ⟨-, hall⟩
    have hgranted := hall call (by simp [hcalls])
    rw [hcall] at hgranted
    cases hgranted

/-- The calls before the first refused one, and that call. -/
theorem split_of_refused {calls done rest : List SourceCall} {call : SourceCall}
    (hcalls : calls = done ++ call :: rest) (hdone : ∀ x ∈ done, s.grants x = true)
    (hcall : s.grants call = false) :
    calls.takeWhile s.grants = done ∧ calls.find? (fun x => !s.grants x) = some call := by
  constructor
  · rw [hcalls, List.takeWhile_append_of_pos hdone, List.takeWhile_cons_of_neg (by simp [hcall]),
      List.append_nil]
  · exact List.find?_eq_some_iff_append.2
      ⟨by simp [hcall], done, rest, hcalls, fun x hx => by simp [hdone x hx]⟩

/-- A start programs and enables exactly the classes that have a ring, in order, or it names the
first call that was refused and disables again what it has enabled. -/
theorem init_all_or_nothing (o : Options) (s : EventSource) (resolver : ρ)
    (hs : s.enabled = .replicate false) :
    let out : Except InitFailure (Controller ρ ι) := init o s resolver
    ((∃ c, out = .ok c) ↔
      o.Valid ∧ (∀ cpu ∈ s.cpus, ∀ cls, s.refuses cls .openRing = false) ∧
        ∀ cls ∈ available s, s.refuses cls .setPeriod = false ∧ s.refuses cls .enable = false) ∧
    (∀ c, out = .ok c →
      c.enabled = available s ∧
      c.source.calls = s.calls ++ ((startup o s).map s.entry).toArray ∧
      (∀ x ∈ startup o s, x.op = .setPeriod ∨ x.op = .enable → x.cls ∈ available s) ∧
      ∀ cls, (c.source.enabled.get cls = true ↔ cls ∈ available s) ∧
        c.source.periods.get cls =
          if s.isAvailable cls then (o.classes.get cls).initialPeriod else s.periods.get cls) ∧
    ∀ f, out = .error f →
      (∃ fault, o.fault? = some fault ∧ f = { error := .invalidOptions fault, source := s }) ∨
      o.Valid ∧ ∃ call, (startup o s).find? (fun x => !s.grants x) = some call ∧
        f.error = .eventSource call.refusal ∧
        let done := (startup o s).takeWhile s.grants
        (call.op = .openRing → ∀ x ∈ done, x.op = .openRing) ∧
        (enabledBy done).Nodup ∧
        f.source.calls = s.calls ++
          ((done ++ [call] ++ (enabledBy done).map SourceCall.disable).map s.entry).toArray ∧
        ∀ cls, f.source.enabled.get cls = true ↔
          cls ∈ enabledBy done ∧ s.refuses cls .disable = true := by
  intro out
  refine ⟨init_eq_ok_iff o s resolver, ?_, ?_⟩
  · intro c hc
    obtain ⟨-, hall, rfl⟩ := eq_started_of_init hc
    exact ⟨rfl, EventSource.calls_performAll .., fun x hx => cls_of_startup hx,
      fun cls => ⟨enabled_startup hs hall cls, periods_startup hall cls⟩⟩
  · intro f hf
    rcases init_cases (ι := ι) o s resolver with
      ⟨fault, hfault, hout⟩ | ⟨-, -, hout⟩ | ⟨hv, done, call, rest, hcalls, hdone, hcall, hout⟩
    · cases hout.symm.trans hf
      exact .inl ⟨fault, hfault, rfl⟩
    · cases hout.symm.trans hf
    · cases hout.symm.trans hf
      obtain ⟨htake, hfind⟩ := split_of_refused hcalls hdone hcall
      refine .inr ⟨hv, call, hfind, rfl, ?_⟩
      rw [htake]
      exact ⟨op_of_refused_open hcalls, nodup_enabledBy hcalls, EventSource.calls_performAll ..,
        enabled_unwound hs hcalls hdone hcall⟩

end Init

/-! ## A start that fails -/

/-- Reads of slow memory have no ring, reads of fast memory cannot be enabled, and hits of the
second level cannot be disabled. -/
def stubbornSource : EventSource where
  cpus := [0, 1]
  ringSize := 4096
  offers := fun _ c => c ≠ .nvmRead
  refuses := fun c op => (c = .dramRead && op = .enable) || (c = .l2Hit && op = .disable)

/-- Six classes are enabled before the refusal, and one of them stays so. -/
theorem init_stubbornSource :
    stubbornSource.enabled = .replicate false ∧
      ∃ f, init (ι := UInt64) {} stubbornSource () = .error f ∧
        f.error = .eventSource { cls := .dramRead, op := .enable } ∧
        ∀ cls, f.source.enabled.get cls = true ↔ cls = .l2Hit := by
  refine ⟨rfl, ?_⟩
  obtain ⟨hok, -, herror⟩ := init_all_or_nothing (ι := UInt64) {} stubbornSource () rfl
  cases hout : init (ι := UInt64) {} stubbornSource () with
  | ok c =>
      have henable := ((hok.1 ⟨c, hout⟩).2.2 .dramRead (by decide)).2
      cases henable
  | error f =>
      refine ⟨f, rfl, ?_⟩
      rcases herror f hout with ⟨fault, hfault, -⟩ | ⟨-, call, hcall, herr, hrest⟩
      · have hvalid : ({} : Options).fault? = none := by decide
        rw [hvalid] at hfault
        cases hfault
      · have hfirst : (startup {} stubbornSource).find? (fun x => !stubbornSource.grants x) =
            some (.enable .dramRead) := by decide
        cases hfirst.symm.trans hcall
        have hdone : enabledBy ((startup {} stubbornSource).takeWhile stubbornSource.grants) =
            [.l1Hit, .l1Miss, .l2Hit, .l2Miss, .l3Hit, .l3Miss] := by decide
        obtain ⟨-, -, -, henabled⟩ := hrest
        refine ⟨herr, fun cls => ?_⟩
        rw [henabled, hdone]
        cases cls <;> decide

end Controller

end AccessSampling
