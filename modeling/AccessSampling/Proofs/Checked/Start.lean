import AccessSampling.Controller
import AccessSampling.Proofs.Checked.Jobs

/-!
# The start and the shutdown of a controller with checked operations

The lists of the classes that have a ring, of those that the loops may retune and of those that were
enabled have nine places each. They are parts of the list of all classes, so a start comes to no
fault, whether it succeeds or not. What a start that fails has set up is shut down like any other
controller, and a shutdown scores the classes once more, which needs nothing of the options.
-/

namespace AccessSampling.Checked

open Controller (openRings ringTable availableClasses stopClasses)

variable {ρ ι : Type} [DecidableEq ι]

/-! ## Shutdown -/

def rescore (c : Controller ρ ι) : Except Fault (Controller ρ ι) := do
  let metrics ← tabulate fun cls => do
    let scores ← metrics c.tally c.options.score cls
    let last ← entry c.metrics cls
    let known ← entry c.writer.known cls
    return { scores with
      targetPeriod := last.targetPeriod
      smoothedPeriod := last.smoothedPeriod
      currentPeriod := known }
  return { c with metrics }

def shutdown (c : Controller ρ ι) : Except Fault (Controller ρ ι) :=
  if c.running then do
    let c := { c with running := false }
    let c ← rescore (c.modifySource (stopClasses c.enabled))
    return c.clearHeaps
  else return c

theorem rescore_eq (c : Controller ρ ι) : rescore c = .ok c.rescore := by
  simp only [rescore, metrics_eq, entry_eq, ok_bind, pure_eq_ok]
  rw [tabulate_eq fun _ => rfl]
  rfl

theorem shutdown_eq (c : Controller ρ ι) : shutdown c = .ok c.shutdown := by
  unfold shutdown Controller.shutdown
  split
  · dsimp only
    rw [rescore_eq]
    rfl
  · rfl

/-! ## Start -/

/-- Appends those of some classes that a table marks to a list with nine places. -/
def marked (marks : PerClass Bool) (xs : List EventClass) :
    List EventClass → Except Fault (List EventClass)
  | [] => return xs
  | c :: cs => do
    if ← entry marks c then marked marks (← push xs c) cs else marked marks xs cs

/-- The classes of some rings, and those of them that the period loops may retune. -/
def classesOf (o : Options) (rings : List Ring) :
    Except Fault (List EventClass × List EventClass) := do
  let hasRing ← tabulate fun c => return rings.any fun r => r.cls = c
  let available ← marked hasRing [] EventClass.all
  let tunable ← marked (o.classes.map fun c => !c.fixed) [] EventClass.all
  let adaptive ← marked hasRing [] tunable
  -- the period loop has a list of its own
  return (available, ← collect adaptive)

def startClasses (o : Options) (enabled : List EventClass) : List EventClass → PeriodWriter →
    Except Fault (Except Refusal Unit × List EventClass × PeriodWriter)
  | [], w => return (.ok (), enabled, w)
  | c :: rest, w => do
    let initial ← entry o.classes c
    let c ← Task.lock c
    match w.set c initial.initialPeriod with
    | (.error r, w) => return (.error r, enabled, w)
    | (.ok (), w) =>
      match w.source.enable c with
      | (.error r, source) => return (.error r, enabled, { w with source })
      | (.ok (), source) => startClasses o (← push enabled c) rest { w with source }

/-- The controller of what a start has set up. -/
def setUp (o : Options) (resolver : ρ) (heaps : PerClass (HotHeap ι)) (store : RingStore)
    (rings : List Ring) (adaptive started : List EventClass) (w : PeriodWriter) :
    Controller ρ ι where
  options := o
  writer := w
  loop := { options := o.period, adaptive }
  drain := { store, rings, intake := { resolver, tally := { heaps } } }
  enabled := started

def init (o : Options) (source : EventSource) (resolver : ρ) :
    Except Fault (Except InitFailure (Controller ρ ι)) :=
  match o.fault? with
  | some fault => return .error { error := .invalidOptions fault, source }
  | none => do
    let heaps ← tabulate fun _ => return { capacity := o.heapCapacity }
    match openRings (ringTable source.cpus) source with
    | (.error r, source) => return .error { error := .eventSource r, source }
    | (.ok rings, source) =>
      let (available, adaptive) ← classesOf o rings
      let known ← tabulate fun c => do return (← entry o.classes c).initialPeriod
      let (result, started, w) ← startClasses o [] available { source, known }
      let c := setUp o resolver heaps (.ofSize source.ringSize) rings adaptive started w
      match result with
      | .error r => return .error { error := .eventSource r, source := (← shutdown c).source }
      | .ok () => return .ok c

theorem marked_eq (marks : PerClass Bool) {xs cs : List EventClass}
    (h : xs.length + cs.length ≤ EventClass.all.length) :
    marked marks xs cs = .ok (xs ++ cs.filter marks.get) := by
  induction cs generalizing xs with
  | nil => rw [marked, List.filter_nil, List.append_nil, pure_eq_ok]
  | cons c cs ih =>
      obtain ⟨hplace, hrest⟩ := places_of_cons h
      rw [marked, entry_eq, ok_bind]
      cases hc : marks.get c with
      | true =>
          rw [if_pos rfl, push_of_lt hplace, ok_bind, ih hrest, List.append_assoc,
            List.filter_cons_of_pos hc, List.singleton_append]
      | false =>
          rw [List.length_cons] at h
          rw [if_neg Bool.false_ne_true, ih (by omega), List.filter_cons_of_neg (by simp [hc])]

theorem classesOf_eq (o : Options) (rings : List Ring) :
    classesOf o rings =
      .ok (availableClasses rings, o.adaptiveClasses.filter (· ∈ availableClasses rings)) := by
  have hadaptive : o.adaptiveClasses.length ≤ EventClass.all.length := List.length_filter_le ..
  have htunable : EventClass.all.filter (o.classes.map fun c => !c.fixed).get = o.adaptiveClasses :=
    List.filter_congr fun c _ => PerClass.get_map ..
  have hring : (PerClass.ofFn fun c => rings.any fun r => r.cls = c).get =
      fun c => rings.any fun r => r.cls = c :=
    funext fun c => PerClass.get_ofFn ..
  have hmem : (fun c => decide (c ∈ availableClasses rings)) =
      fun c => rings.any fun r => r.cls = c :=
    funext fun c => Bool.eq_iff_iff.2 (by simp [availableClasses])
  simp only [classesOf, pure_eq_ok]
  rw [tabulate_eq fun _ => rfl, ok_bind, marked_eq _ (by simp), ok_bind, marked_eq _ (by simp),
    ok_bind, List.nil_append, List.nil_append, htunable, marked_eq _ (by simpa), ok_bind,
    List.nil_append, hring, hmem, collect_of_le (Nat.le_trans (List.length_filter_le ..) hadaptive)]
  rfl

theorem startClasses_eq (o : Options) {enabled cs : List EventClass} (w : PeriodWriter)
    (h : enabled.length + cs.length ≤ EventClass.all.length) :
    startClasses o enabled cs w =
      .ok ((Controller.startClasses o cs w).1, enabled ++ (Controller.startClasses o cs w).2.1,
        (Controller.startClasses o cs w).2.2) := by
  induction cs generalizing enabled w with
  | nil => rw [startClasses, Controller.startClasses, List.append_nil, pure_eq_ok]
  | cons c rest ih =>
      obtain ⟨hplace, hrest⟩ := places_of_cons h
      rw [startClasses, Controller.startClasses, entry_eq, ok_bind, Task.lock_eq, ok_bind]
      rcases w.set c (o.classes.get c).initialPeriod with ⟨_ | _, w⟩
      · simp
      · rcases henable : w.source.enable c with ⟨_ | _, source⟩
        · simp [henable]
        · simp only [henable, push_of_lt hplace, ok_bind, ih _ hrest, List.append_assoc,
            List.singleton_append]

/-- A start comes to no fault, even with options that it refuses. -/
theorem init_eq (o : Options) (source : EventSource) (resolver : ρ) :
    init o source resolver = .ok (Controller.init (ι := ι) o source resolver) := by
  have hheaps : tabulate (fun _ => .ok ({ capacity := o.heapCapacity } : HotHeap ι)) =
      .ok (.replicate { capacity := o.heapCapacity }) :=
    tabulate_eq fun _ => rfl
  have hknown : tabulate (fun c => .ok (o.classes.get c).initialPeriod) =
      .ok (o.classes.map ClassOptions.initialPeriod) :=
    tabulate_eq fun _ => rfl
  unfold init Controller.init
  cases o.fault? with
  | some fault => rfl
  | none =>
      simp only [pure_eq_ok, entry_eq, ok_bind, hheaps, hknown, classesOf_eq]
      rcases openRings (ringTable source.cpus) source with ⟨_ | rings, source⟩
      · rfl
      · dsimp only
        have hroom : ([] : List EventClass).length + (availableClasses rings).length ≤
            EventClass.all.length := by
          rw [List.length_nil, Nat.zero_add]
          exact List.length_filter_le ..
        rw [startClasses_eq o _ hroom, ok_bind, List.nil_append]
        rcases Controller.startClasses o (availableClasses rings) _ with ⟨_ | _, started, w⟩
        · dsimp only
          rw [shutdown_eq]
          rfl
        · rfl

end AccessSampling.Checked
