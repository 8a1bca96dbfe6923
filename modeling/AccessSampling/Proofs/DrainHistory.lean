import AccessSampling.Proofs.DrainRun
import AccessSampling.Proofs.IntakeRun

/-!
# The history of the drain worker

The events of a run are those of its visits and reports, in order. They are all that the intake ever
learns, the records among them are what the passes count, and those of one ring are the front of
what was written to it.
-/

namespace AccessSampling

namespace Event

/-- The record that a ring gave up, if the event tells of one. -/
def recordFrom? (id : RingId) : Event → Option Record
  | took id' _ r => if id' = id then some r else none
  | _ => none

end Event

/-- The records that a ring gave up in the course of some events. -/
def popped (id : RingId) (es : List Event) : List Record := es.filterMap (Event.recordFrom? id)

theorem popped_append (id : RingId) (es fs : List Event) :
    popped id (es ++ fs) = popped id es ++ popped id fs :=
  List.filterMap_append

namespace Ring

/-- The events of a visit. -/
def events (r : Ring) (v : Visit) : List Event :=
  v.taken.map (.took r.id r.cls) ++ if v.foundEmpty then [.foundEmpty r.id] else []

theorem countP_isTook_events (r : Ring) (v : Visit) :
    (r.events v).countP Event.isTook = v.taken.length := by
  have htaken : (v.taken.map (Event.took r.id r.cls)).countP Event.isTook = v.taken.length := by
    rw [List.countP_map, List.countP_eq_length]
    exact fun _ _ => rfl
  rw [events, List.countP_append, htaken]
  split <;> rfl

theorem countP_isFoundEmpty_events (r : Ring) (v : Visit) :
    (r.events v).countP Event.isFoundEmpty = countIf (v.foundEmpty = true) := by
  have htaken : (v.taken.map (Event.took r.id r.cls)).countP Event.isFoundEmpty = 0 := by
    rw [List.countP_map, List.countP_eq_zero]
    exact fun _ _ => Bool.false_ne_true
  rw [events, List.countP_append, htaken, countIf]
  split <;> rfl

theorem popped_events (r : Ring) (v : Visit) (id : RingId) :
    popped id (r.events v) = if r.id = id then v.taken else [] := by
  have hempty : popped id (if v.foundEmpty then [.foundEmpty r.id] else []) = [] := by
    split <;> rfl
  rw [events, popped_append, hempty, List.append_nil, popped, List.filterMap_map]
  split
  · rename_i h
    rw [show Event.recordFrom? id ∘ Event.took r.id r.cls = some from
      funext fun _ => if_pos h, List.filterMap_some]
  · rename_i h
    rw [show Event.recordFrom? id ∘ Event.took r.id r.cls = fun _ => none from
      funext fun _ => if_neg h]
    simp

end Ring

namespace Drain

/-! ## The events of a pass -/

/-- The events of a pass over some rings. -/
def passEvents (o : DrainOptions) (rs : List Ring) (s : RingStore) : List Event :=
  (visits o rs s).flatMap fun v => v.1.events (v.1.visit o v.2)

theorem passEvents_cons (o : DrainOptions) (r : Ring) (rs : List Ring) (s : RingStore) :
    passEvents o (r :: rs) s = r.events (r.visit o (s.get r.id)) ++
      passEvents o rs (s.set r.id (r.visit o (s.get r.id)).buffer) :=
  List.flatMap_cons ..

section Pass

variable {ρ ι : Type} [Resolver ρ ι] [DecidableEq ι]

theorem consumeVisit_eq (i : Intake ρ ι) (m : Nat) (r : Ring) (v : Visit) :
    i.consumeVisit m r.cls v = (r.events v).foldl (Intake.step m) i := by
  rw [Ring.events, List.foldl_append, List.foldl_map, Intake.consumeVisit, Intake.consumeAll]
  split <;> rfl

/-- The intake learns the events of the pass and nothing else. -/
theorem intake_visitAll (o : DrainOptions) (rs : List Ring) (s : RingStore) (i : Intake ρ ι) :
    (visitAll o rs s i).2.2.2 = (passEvents o rs s).foldl (Intake.step o.milestone) i := by
  induction rs generalizing s i with
  | nil => rfl
  | cons r rs ih =>
      rw [passEvents_cons, List.foldl_append, ← consumeVisit_eq, ← ih]
      rfl

/-- A pass counts the records that its rings gave up and the visits that found nothing. -/
theorem pass_visitAll (o : DrainOptions) (rs : List Ring) (s : RingStore) (i : Intake ρ ι) :
    (visitAll o rs s i).1 =
      { records := (passEvents o rs s).countP Event.isTook
        empty := (passEvents o rs s).countP Event.isFoundEmpty } := by
  induction rs generalizing s i with
  | nil => rfl
  | cons r rs ih =>
      rw [passEvents_cons, List.countP_append, List.countP_append, Ring.countP_isTook_events,
        Ring.countP_isFoundEmpty_events]
      have hrest := ih (s.set r.id (r.visit o (s.get r.id)).buffer)
        (i.consumeVisit o.milestone r.cls (r.visit o (s.get r.id)))
      show (⟨_ + (visitAll o rs _ _).1.records, _ + (visitAll o rs _ _).1.empty⟩ : Pass) = _
      rw [hrest]

/-- What a pass takes from a ring is the front of its queue. -/
theorem popped_append_queue_visitAll (o : DrainOptions) (rs : List Ring) (s : RingStore)
    (i : Intake ρ ι) (id : RingId) :
    popped id (passEvents o rs s) ++ ((visitAll o rs s i).2.2.1.get id).queue =
      (s.get id).queue := by
  induction rs generalizing s i with
  | nil => rfl
  | cons r rs ih =>
      rw [passEvents_cons, popped_append, Ring.popped_events, List.append_assoc]
      refine (congrArg (_ ++ ·) (ih _ _)).trans ?_
      rw [Table.get_set]
      by_cases h : r.id = id
      · rw [if_pos h, if_pos h.symm, ← h]
        exact Visit.taken_append_queue ..
      · rw [if_neg h, if_neg (Ne.symm h), List.nil_append]

end Pass

/-! ## Runs -/

/-- The records that an operation writes to a ring. -/
def Op.recordsFor (id : RingId) : Op → List Record
  | .push id' rs => if id' = id then rs else []
  | .skip .. | .pass | .report .. => []

/-- The records that are written to a ring in the course of some operations. -/
def pushed (id : RingId) (ops : List Op) : List Record := ops.flatMap (Op.recordsFor id)

section Run

variable {ρ ι : Type} [Resolver ρ ι] [DecidableEq ι]

/-- The worker and its rings after some operations. -/
def run (o : DrainOptions) (d : Drain ρ ι) (ops : List Op) : Drain ρ ι := ops.foldl (apply o) d

/-- The events of an operation. -/
def eventsOf (o : DrainOptions) (d : Drain ρ ι) : Op → List Event
  | .push .. | .skip .. => []
  | .pass => passEvents o d.rings d.store
  | .report samplePeriod cpuPermil => [.reported samplePeriod cpuPermil]

/-- The events of some operations. -/
def history (o : DrainOptions) : Drain ρ ι → List Op → List Event
  | _, [] => []
  | d, op :: ops => d.eventsOf o op ++ history o (d.apply o op) ops

/-- What the passes among some operations return. -/
def passResults (o : DrainOptions) : Drain ρ ι → List Op → List Pass
  | _, [] => []
  | d, op :: ops =>
    let now := match op with
      | .pass => [(d.pass o).1]
      | _ => []
    now ++ passResults o (d.apply o op) ops

theorem intake_apply (o : DrainOptions) (d : Drain ρ ι) (op : Op) :
    (d.apply o op).intake = (d.eventsOf o op).foldl (Intake.step o.milestone) d.intake := by
  cases op with
  | pass => exact intake_visitAll ..
  | push | skip | report => rfl

/-- The intake after a run has learnt the history of the run and nothing else. -/
theorem intake_run (o : DrainOptions) (d : Drain ρ ι) (ops : List Op) :
    (d.run o ops).intake = (d.history o ops).foldl (Intake.step o.milestone) d.intake := by
  induction ops generalizing d with
  | nil => rfl
  | cons op ops ih =>
      rw [history, List.foldl_append, ← intake_apply]
      exact ih _

/-- The passes of a run count the records of its history and the visits that found nothing. -/
theorem sum_passResults (o : DrainOptions) (d : Drain ρ ι) (ops : List Op) :
    ((d.passResults o ops).map Pass.records).sum = (d.history o ops).countP Event.isTook ∧
      ((d.passResults o ops).map Pass.empty).sum =
        (d.history o ops).countP Event.isFoundEmpty := by
  induction ops generalizing d with
  | nil => exact ⟨rfl, rfl⟩
  | cons op ops ih =>
      obtain ⟨hrecords, hempty⟩ := ih (d.apply o op)
      rw [history, List.countP_append, List.countP_append, ← hrecords, ← hempty]
      cases op with
      | pass =>
          have hpass : (d.pass o).1 = _ := pass_visitAll o d.rings d.store d.intake
          rw [passResults, List.singleton_append, List.map_cons, List.map_cons, List.sum_cons,
            List.sum_cons, hpass]
          exact ⟨rfl, rfl⟩
      | push | skip | report =>
          simp [passResults, eventsOf, Event.isTook, Event.isFoundEmpty]

theorem queue_apply (o : DrainOptions) (d : Drain ρ ι) (op : Op) (id : RingId) :
    popped id (d.eventsOf o op) ++ ((d.apply o op).buffer id).queue =
      (d.buffer id).queue ++ op.recordsFor id := by
  cases op with
  | push id' rs =>
      rw [apply, buffer_push, Op.recordsFor]
      by_cases h : id' = id
      · rw [if_pos h, if_pos h.symm, h]
        rfl
      · rw [if_neg h, if_neg (Ne.symm h), List.append_nil]
        rfl
  | skip id' bytes =>
      rw [apply, buffer_skip, Op.recordsFor, List.append_nil]
      split
      · rename_i h
        rw [h]
        rfl
      · rfl
  | pass => exact (popped_append_queue_visitAll ..).trans (List.append_nil _).symm
  | report => exact (List.append_nil _).symm

/-- A ring gives up what was written to it, in order, and holds the rest. -/
theorem queue_append_pushed (o : DrainOptions) (d : Drain ρ ι) (ops : List Op) (id : RingId) :
    (d.buffer id).queue ++ pushed id ops =
      popped id (d.history o ops) ++ ((d.run o ops).buffer id).queue := by
  induction ops generalizing d with
  | nil => exact List.append_nil _
  | cons op ops ih =>
      rw [history, popped_append, List.append_assoc]
      refine Eq.trans ?_ (congrArg (_ ++ ·) (ih (d.apply o op)))
      rw [← List.append_assoc, queue_apply, List.append_assoc]
      rfl

/-- The accepted samples of a run go into the tally, and its records and empty visits into the
counters. -/
theorem intake_run_spec (o : DrainOptions) (d : Drain ρ ι) (ops : List Op) :
    let es := d.history o ops
    let as := d.intake.accesses o.milestone es
    (d.run o ops).intake.tally = d.intake.tally.recordAll as ∧
      Counters.Grown d.intake.counters (d.run o ops).intake.counters (d.intake.tally.answers as)
        (d.intake.exclusions o.milestone es) (es.countP Event.isFoundEmpty) := by
  rw [intake_run]
  exact Intake.foldl_spec ..

end Run

end Drain

/-! ## A small worker -/

/-- A worker with a ring of reads and one of writes, heaps of one place and two pages that
resolve. -/
def mixedDrain : Drain PageDirectory UInt64 where
  store := .ofSize 200
  rings := [{ cpu := 0, cls := .dramRead, id := .hardware 0 .dramRead },
    { cpu := 0, cls := .memWrite, id := .hardware 0 .memWrite }]
  intake := { resolver := .ofAddresses [0x1000, 0x3000], tally := .empty 1 }

/-- Samples that are accepted, late, of no address and of no page, and records of other kinds. The
last two records are still queued in the end. -/
def mixedRecords : List Drain.Op :=
  [.push (.hardware 0 .dramRead)
      [.sample ⟨1, ⟨1, 1⟩, 5, 0x1000⟩, .sample ⟨1, ⟨1, 1⟩, 4, 0x1008⟩,
        .sample ⟨1, ⟨1, 1⟩, 6, 0x3000⟩, .sample ⟨1, ⟨1, 1⟩, 7, 0⟩],
    .pass,
    .push (.hardware 0 .memWrite)
      [.other 3, .sample ⟨1, ⟨1, 1⟩, 8, 0x2000⟩, .lostSamples 12, .throttle ⟨9, 1, 1⟩],
    .pass, .pass]

end AccessSampling
