import AccessSampling.Proofs.DrainHistory

/-!
# Where positions start

The positions of a ring are words that wrap, and the worker only ever looks at their difference. So
moving both positions of a ring by one distance changes nothing that the worker does. Two workers
whose rings differ by such distances stay that way, whatever happens to them: they take the same
records in the same order, and all that ever differs is the positions, by the same distances.
-/

namespace AccessSampling

/-! ## One ring -/

namespace Cursor

/-- Both positions, moved by one distance. They wrap as all positions do. -/
def shift (c : Cursor) (k : UInt64) : Cursor := { c with head := c.head + k, tail := c.tail + k }

variable (c : Cursor) (k : UInt64)

@[simp] theorem size_shift : (c.shift k).size = c.size := rfl

@[simp] theorem pending_shift : (c.shift k).pending = c.pending := by
  simp only [pending, shift]
  grind

@[simp] theorem isEmpty_shift : (c.shift k).isEmpty = c.isEmpty := by
  rw [Bool.eq_iff_iff, isEmpty_iff, isEmpty_iff, pending_shift]

theorem produce_shift (bytes : Nat) : (c.shift k).produce bytes = (c.produce bytes).shift k := by
  simp only [produce, shift, mk.injEq, and_true]
  grind

theorem consume_shift (bytes : Nat) : (c.shift k).consume bytes = (c.consume bytes).shift k := by
  simp only [consume, shift, mk.injEq, true_and, and_true]
  grind

end Cursor

/-- A look at the watermarks sees the waiting bytes and the size only. -/
@[simp] theorem Backpressure.update_shift (b : Backpressure) (c : Cursor) (k : UInt64)
    (high low : Nat) : b.update (c.shift k) high low = b.update c high low := by
  rw [update, update, Cursor.size_shift, Cursor.pending_shift]

namespace RingBuffer

/-- The ring with both positions moved by one distance. -/
def shift (b : RingBuffer) (k : UInt64) : RingBuffer := { b with cursor := b.cursor.shift k }

/-- An empty ring may start at any position. -/
theorem shift_new (size k : UInt64) : (new size).shift k = new size k := by
  simp [new, shift, Cursor.shift]

theorem push_shift (b : RingBuffer) (k : UInt64) (rs : List Record) :
    (b.shift k).push rs = (b.push rs).shift k := by
  simp only [push, shift, Cursor.produce_shift]

theorem skip_shift (b : RingBuffer) (k : UInt64) (bytes : Nat) :
    (b.shift k).skip bytes = (b.skip bytes).shift k := by
  simp only [skip, shift, Cursor.produce_shift]

end RingBuffer

/-- The visit with the positions that it leaves moved by one distance. -/
def Visit.shift (v : Visit) (k : UInt64) : Visit := { v with buffer := v.buffer.shift k }

/-- A visit of a moved ring takes the same records and leaves the ring moved. -/
theorem Visit.run_shift (o : DrainOptions) (c : Cursor) (k : UInt64) (b : Backpressure)
    (q : List Record) : Visit.run o (c.shift k) b q = (Visit.run o c b q).shift k := by
  induction q generalizing c b with
  | nil =>
      rw [run, run, Cursor.isEmpty_shift, Backpressure.update_shift]
      split <;> rfl
  | cons r rest ih =>
      rw [run, run, Cursor.isEmpty_shift, Backpressure.update_shift, Cursor.consume_shift]
      by_cases hempty : c.isEmpty = true
      · rw [if_pos hempty, if_pos hempty]
        rfl
      · rw [if_neg hempty, if_neg hempty]
        simp only
        split
        · rw [ih]
          rfl
        · rfl

theorem Ring.visit_shift (r : Ring) (o : DrainOptions) (b : RingBuffer) (k : UInt64) :
    r.visit o (b.shift k) = (r.visit o b).shift k :=
  Visit.run_shift ..

/-- A visit tells the intake nothing about positions. -/
theorem Ring.events_shift (r : Ring) (v : Visit) (k : UInt64) :
    r.events (v.shift k) = r.events v := rfl

/-! ## All rings -/

/-- Every ring of the second store is the one of the first store, moved by its distance. -/
def RingStore.Moved (k : RingId → UInt64) (s s' : RingStore) : Prop :=
  ∀ id, s'.get id = (s.get id).shift (k id)

namespace RingStore.Moved

variable {k : RingId → UInt64} {s s' : RingStore}

theorem set (h : Moved k s s') (id : RingId) (b : RingBuffer) :
    Moved k (s.set id b) (s'.set id (b.shift (k id))) := by
  intro id'
  rw [Table.get_set, Table.get_set]
  by_cases heq : id' = id
  · rw [if_pos heq, if_pos heq, heq]
  · rw [if_neg heq, if_neg heq]
    exact h id'

theorem modify (h : Moved k s s') (id : RingId) {f : RingBuffer → RingBuffer}
    (hf : ∀ b, f (b.shift (k id)) = (f b).shift (k id)) :
    Moved k (Table.modify s id f) (Table.modify s' id f) := by
  have hset := h.set id (f (s.get id))
  rwa [← hf, ← h id] at hset

/-- A visit finds the ring moved and leaves it moved. -/
theorem visit (h : Moved k s s') (o : DrainOptions) (r : Ring) :
    Moved k (s.set r.id (r.visit o (s.get r.id)).buffer)
      (s'.set r.id (r.visit o (s'.get r.id)).buffer) := by
  rw [h r.id, Ring.visit_shift]
  exact h.set r.id _

end RingStore.Moved

/-! ## The worker -/

namespace Drain

variable {k : RingId → UInt64} {s s' : RingStore}

/-- A pass over moved rings makes the same visits, each of a moved ring. -/
theorem visits_moved (h : RingStore.Moved k s s') (o : DrainOptions) (rs : List Ring) :
    visits o rs s' = (visits o rs s).map fun v => (v.1, v.2.shift (k v.1.id)) := by
  induction rs generalizing s s' with
  | nil => rfl
  | cons r rs ih =>
      rw [visits, visits, List.map_cons, ih (h.visit o r), h r.id]

theorem passEvents_moved (h : RingStore.Moved k s s') (o : DrainOptions) (rs : List Ring) :
    passEvents o rs s' = passEvents o rs s := by
  rw [passEvents, passEvents, visits_moved h, List.flatMap_map]
  refine List.flatMap_congr fun v _ => ?_
  rw [Ring.visit_shift, Ring.events_shift]

variable {ρ ι : Type}

/-- The second worker is the first one with its rings moved, and with nothing else changed. -/
structure Moved (k : RingId → UInt64) (d d' : Drain ρ ι) : Prop where
  rings : d'.rings = d.rings
  intake : d'.intake = d.intake
  store : RingStore.Moved k d.store d'.store

namespace Moved

variable {d d' : Drain ρ ι}

theorem eventsOf_eq (h : Moved k d d') (o : DrainOptions) (op : Op) :
    d'.eventsOf o op = d.eventsOf o op := by
  cases op with
  | pass => rw [eventsOf, eventsOf, h.rings, passEvents_moved h.store]
  | push | skip | report => rfl

end Moved

/-- Rings that start out empty are those that start at zero, moved to where they start. -/
theorem moved_of_new {size start : RingId → UInt64} {d d' : Drain ρ ι}
    (hrings : d'.rings = d.rings) (hintake : d'.intake = d.intake)
    (hzero : ∀ id, d.buffer id = .new (size id))
    (hstart : ∀ id, d'.buffer id = .new (size id) (start id)) : Moved start d d' where
  rings := hrings
  intake := hintake
  store := fun id => by
    have h0 : d.store.get id = .new (size id) := hzero id
    rw [h0, RingBuffer.shift_new]
    exact hstart id

variable [Resolver ρ ι] [DecidableEq ι]

theorem store_visitAll_moved (h : RingStore.Moved k s s') (o : DrainOptions) (rs : List Ring)
    (i i' : Intake ρ ι) :
    RingStore.Moved k (visitAll o rs s i).2.2.1 (visitAll o rs s' i').2.2.1 := by
  induction rs generalizing s s' i i' with
  | nil => exact h
  | cons r rs ih => exact ih (h.visit o r) _ _

namespace Moved

variable {d d' : Drain ρ ι}

theorem pass_eq (h : Moved k d d') (o : DrainOptions) : (d'.pass o).1 = (d.pass o).1 := by
  have hpass : (d.pass o).1 = _ := pass_visitAll o d.rings d.store d.intake
  have hpass' : (d'.pass o).1 = _ := pass_visitAll o d'.rings d'.store d'.intake
  rw [hpass, hpass', h.rings, passEvents_moved h.store]

/-- Whatever happens to both workers, the second one stays the first one with its rings moved. -/
theorem apply (h : Moved k d d') (o : DrainOptions) (op : Op) :
    Moved k (d.apply o op) (d'.apply o op) where
  intake := by rw [intake_apply, intake_apply, h.eventsOf_eq, h.intake]
  rings := by
    cases op with
    | pass =>
        rw [rings_pass, rings_pass, h.rings, visits_moved h.store, List.map_map]
        refine List.map_congr_left fun v _ => ?_
        rw [Function.comp_apply, Ring.visit_shift]
        rfl
    | push | skip | report => exact h.rings
  store := by
    cases op with
    | push id rs => exact h.store.modify id fun b => b.push_shift _ rs
    | skip id bytes => exact h.store.modify id fun b => b.skip_shift _ bytes
    | pass =>
        show RingStore.Moved k (visitAll o d.rings d.store d.intake).2.2.1
          (visitAll o d'.rings d'.store d'.intake).2.2.1
        rw [h.rings]
        exact store_visitAll_moved h.store o d.rings d.intake d'.intake
    | report => exact h.store

theorem run (h : Moved k d d') (o : DrainOptions) (ops : List Op) :
    Moved k (d.run o ops) (d'.run o ops) := by
  induction ops generalizing d d' with
  | nil => exact h
  | cons op ops ih => exact ih (h.apply o op)

theorem history_eq (h : Moved k d d') (o : DrainOptions) (ops : List Op) :
    d'.history o ops = d.history o ops := by
  induction ops generalizing d d' with
  | nil => rfl
  | cons op ops ih => rw [history, history, h.eventsOf_eq, ih (h.apply o op)]

theorem passResults_eq (h : Moved k d d') (o : DrainOptions) (ops : List Op) :
    d'.passResults o ops = d.passResults o ops := by
  induction ops generalizing d d' with
  | nil => rfl
  | cons op ops ih =>
      have hlater := ih (h.apply o op)
      cases op with
      | pass => exact congrArg₂ List.cons (h.pass_eq o) hlater
      | push | skip | report => exact hlater

end Moved

/-- It does not matter at which positions the rings of a worker start, however often these wrap:
what the worker takes, from which ring and in which order, what its passes return and all that its
intake holds in the end (counters, window, log, heaps, numbers of samples, item statistics,
resolver) is what it would be if all rings started at zero, and so are the pressures of the rings
and the records still queued. The positions differ by those at which the rings started. -/
theorem same_from_any_position {size start : RingId → UInt64} {d d' : Drain ρ ι}
    (hrings : d'.rings = d.rings) (hintake : d'.intake = d.intake)
    (hzero : ∀ id, d.buffer id = .new (size id))
    (hstart : ∀ id, d'.buffer id = .new (size id) (start id)) (o : DrainOptions)
    (ops : List Op) :
    d'.history o ops = d.history o ops ∧
      d'.passResults o ops = d.passResults o ops ∧
      (d'.run o ops).intake = (d.run o ops).intake ∧
      (d'.run o ops).rings = (d.run o ops).rings ∧
      ∀ id, (d'.run o ops).buffer id = ((d.run o ops).buffer id).shift (start id) := by
  have hmoved := moved_of_new hrings hintake hzero hstart
  have hrun := hmoved.run o ops
  exact ⟨hmoved.history_eq o ops, hmoved.passResults_eq o ops, hrun.intake, hrun.rings, hrun.store⟩

end Drain

/-! ## Positions at the end of the word -/

/-- A worker with two rings that start out empty at two positions. -/
def twoRings (a b : UInt64) : Drain PageDirectory UInt64 :=
  .ofBuffers [(0, .dramRead, .new 100 a), (1, .nvmRead, .new 64 b)]
    { resolver := {}, tally := .empty 4 }

/-- One ring fills past its high watermark, the other one gets bytes without a record. -/
def fillBoth : List Drain.Op :=
  [.push (.detached 0) [.sample ⟨1, ⟨1, 1⟩, 5, 4096⟩, .sample ⟨1, ⟨1, 1⟩, 9, 4096⟩],
    .skip (.detached 1) 8, .pass, .report none none,
    .push (.detached 1) [.sample ⟨1, ⟨1, 1⟩, 7, 4096⟩, .lostSamples 1], .pass, .pass]

/-- The first ring wraps with its first record, the second one with the bytes that hold none. -/
theorem Drain.same_at_the_wrap :
    let d := twoRings 0 0
    let d' := twoRings 18446744073709551608 18446744073709551612
    let size : RingId → UInt64
      | .detached 0 => 100
      | .detached 1 => 64
      | _ => 0
    let start : RingId → UInt64
      | .detached 0 => 18446744073709551608
      | .detached 1 => 18446744073709551612
      | _ => 0
    (d'.rings = d.rings ∧ d'.intake = d.intake ∧ (∀ id, d.buffer id = .new (size id)) ∧
      ∀ id, d'.buffer id = .new (size id) (start id)) ∧
    d'.passResults {} fillBoth = d.passResults {} fillBoth ∧
    (d.passResults {} fillBoth).map Pass.records = [2, 2, 0] ∧
    (d'.run {} fillBoth).intake = (d.run {} fillBoth).intake ∧
    ((d.run {} fillBoth).buffer (.detached 0)).cursor = ⟨80, 80, 100⟩ ∧
    ((d'.run {} fillBoth).buffer (.detached 0)).cursor = ⟨72, 72, 100⟩ := by
  intro d d' size start
  have hzero : ∀ id, d.buffer id = .new (size id)
    | .detached 0 | .detached 1 | .detached (_ + 2) | .hardware .. => rfl
  have hstart : ∀ id, d'.buffer id = .new (size id) (start id)
    | .detached 0 | .detached 1 | .detached (_ + 2) | .hardware .. => rfl
  have hrings : d'.rings = d.rings := rfl
  have hintake : d'.intake = d.intake := rfl
  obtain ⟨-, hpasses, hall, -, hbuffer⟩ :=
    Drain.same_from_any_position hrings hintake hzero hstart {} fillBoth
  have hend : ((d.run {} fillBoth).buffer (.detached 0)).cursor = ⟨80, 80, 100⟩ := by decide
  refine ⟨⟨hrings, hintake, hzero, hstart⟩, hpasses, by decide, hall, hend, ?_⟩
  rw [hbuffer, RingBuffer.shift, hend]
  decide

end AccessSampling
