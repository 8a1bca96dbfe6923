import AccessSampling.Drain

/-!
# Runs of the drain worker

What can happen to the worker and its rings, one operation after the other, and which visits a pass
makes. The rings that a pass leaves are those that its visits left, whatever the intake does with
what they took.
-/

namespace AccessSampling

/-! ## One visit -/

namespace Visit

/-- The visit that takes one more record in front. -/
def cons (record : Record) (v : Visit) : Visit := { v with taken := record :: v.taken }

variable {o : DrainOptions} {c : Cursor} {b : Backpressure}

theorem run_of_isEmpty (h : c.isEmpty = true) (q : List Record) :
    run o c b q = { taken := [], buffer := ⟨c, q⟩, pressure := b, foundEmpty := true } := by
  cases q with
  | nil | cons => rw [run, if_pos h]

theorem run_nil_of_not_isEmpty (h : ¬ c.isEmpty = true) :
    run o c b [] =
      { taken := [], buffer := ⟨c, []⟩, pressure := b.update c o.highWatermark o.lowWatermark,
        foundEmpty := false } := by
  rw [run, if_neg h]

/-- In tight-loop mode the visit goes on. -/
theorem run_cons_of_draining (h : ¬ c.isEmpty = true)
    (hdraining : (b.update c o.highWatermark o.lowWatermark).draining = true) (r : Record)
    (q : List Record) :
    run o c b (r :: q) =
      (run o (c.consume r.size) (b.update c o.highWatermark o.lowWatermark) q).cons r := by
  rw [run, if_neg h]
  exact if_pos hdraining

/-- Otherwise it takes one record. -/
theorem run_cons_of_calm (h : ¬ c.isEmpty = true)
    (hcalm : ¬ (b.update c o.highWatermark o.lowWatermark).draining = true) (r : Record)
    (q : List Record) :
    run o c b (r :: q) =
      { taken := [r], buffer := ⟨c.consume r.size, q⟩,
        pressure := b.update c o.highWatermark o.lowWatermark, foundEmpty := false } := by
  rw [run, if_neg h]
  exact if_neg hcalm

/-- What holds of a ring, and still holds when the tail has moved past a record, holds of the ring
that a visit leaves. -/
theorem run_induction {P : RingBuffer → Prop} {q : List Record}
    (htail : ∀ c r rest, P ⟨c, r :: rest⟩ → P ⟨c.consume r.size, rest⟩) (h : P ⟨c, q⟩) :
    P (run o c b q).buffer := by
  induction q generalizing c b with
  | nil =>
      unfold run
      split <;> exact h
  | cons r rest ih =>
      by_cases hempty : c.isEmpty = true
      · rw [run_of_isEmpty hempty]
        exact h
      by_cases hdraining : (b.update c o.highWatermark o.lowWatermark).draining = true
      · rw [run_cons_of_draining hempty hdraining]
        exact ih (htail c r rest h)
      · rw [run_cons_of_calm hempty hdraining]
        exact htail c r rest h

end Visit

namespace Drain

/-! ## Visits of a pass -/

/-- The visits of a pass over some rings: each ring with what it holds when its turn comes. -/
def visits (o : DrainOptions) : List Ring → RingStore → List (Ring × RingBuffer)
  | [], _ => []
  | r :: rest, s =>
    (r, s.get r.id) :: visits o rest (s.set r.id (r.visit o (s.get r.id)).buffer)

/-- What every visit of a ring keeps, the visit of any ring in the store keeps. -/
theorem set_visit_induction {o : DrainOptions} {id : RingId} {P : RingBuffer → Prop}
    (hvisit : ∀ r b, P b → P (Ring.visit r o b).buffer) (r : Ring) {s : RingStore}
    (h : P (s.get id)) : P ((s.set r.id (r.visit o (s.get r.id)).buffer).get id) := by
  by_cases heq : id = r.id
  · subst heq
    rw [Table.get_set_self]
    exact hvisit r _ h
  · rwa [Table.get_set_of_ne s heq]

section Pass

variable {ρ ι : Type} [Resolver ρ ι] [DecidableEq ι]

theorem visitAll_rings (o : DrainOptions) (rs : List Ring) (s : RingStore) (i : Intake ρ ι) :
    (visitAll o rs s i).2.1 = (visits o rs s).map fun v => v.1.leave (v.1.visit o v.2) := by
  induction rs generalizing s i with
  | nil => rfl
  | cons r rest ih =>
      rw [visits, List.map_cons, ← ih]
      rfl

/-- What every visit of a ring keeps, a pass keeps. -/
theorem visitAll_induction {o : DrainOptions} {id : RingId} {P : RingBuffer → Prop}
    (hvisit : ∀ r b, P b → P (Ring.visit r o b).buffer) (rs : List Ring) {s : RingStore}
    (i : Intake ρ ι) (h : P (s.get id)) : P ((visitAll o rs s i).2.2.1.get id) := by
  induction rs generalizing s i with
  | nil => exact h
  | cons r rs ih => exact ih _ (set_visit_induction hvisit r h)

end Pass

/-! ## Sizes -/

/-- No visit changes the size of its ring. -/
theorem size_run (o : DrainOptions) (c : Cursor) (b : Backpressure) (q : List Record) :
    (Visit.run o c b q).buffer.cursor.size = c.size :=
  Visit.run_induction (P := fun buffer => buffer.cursor.size = c.size) (fun _ _ _ h => h) rfl

theorem size_set_visit (o : DrainOptions) (r : Ring) (s : RingStore) (id : RingId) :
    ((s.set r.id (r.visit o (s.get r.id)).buffer).get id).cursor.size =
      (s.get id).cursor.size :=
  set_visit_induction (P := fun b => b.cursor.size = (s.get id).cursor.size)
    (fun _ _ h => (size_run ..).trans h) r rfl

section Pass

variable {ρ ι : Type} [Resolver ρ ι] [DecidableEq ι]

theorem size_visitAll (o : DrainOptions) (rs : List Ring) (s : RingStore) (i : Intake ρ ι)
    (id : RingId) :
    ((visitAll o rs s i).2.2.1.get id).cursor.size = (s.get id).cursor.size :=
  visitAll_induction (P := fun b => b.cursor.size = (s.get id).cursor.size)
    (fun _ _ h => (size_run ..).trans h) rs i rfl

end Pass

/-- The visit of a ring finds it with its pressure and its size. -/
theorem visits_getElem? {o : DrainOptions} {rs : List Ring} {s : RingStore} {k : Nat} {r : Ring}
    (h : rs[k]? = some r) :
    ∃ b, (visits o rs s)[k]? = some (r, b) ∧ b.cursor.size = (s.get r.id).cursor.size := by
  induction rs generalizing s k with
  | nil => simp at h
  | cons r' rest ih =>
      cases k with
      | zero =>
          rw [List.getElem?_cons_zero, Option.some.injEq] at h
          subst h
          exact ⟨s.get r'.id, rfl, rfl⟩
      | succ k =>
          rw [List.getElem?_cons_succ] at h
          obtain ⟨b, hb, hsize⟩ := ih h
          exact ⟨b, hb, hsize.trans (size_set_visit ..)⟩

/-! ## Operations -/

/-- What happens to the worker and its rings. -/
inductive Op where
  /-- The hardware writes records to a ring. -/
  | push (id : RingId) (rs : List Record)
  /-- The head of a ring moves past bytes that hold no record. -/
  | skip (id : RingId) (bytes : Nat)
  | pass
  | report (samplePeriod cpuPermil : Option Nat)
  deriving Repr

section Run

variable {ρ ι : Type} [Resolver ρ ι] [DecidableEq ι]

/-- The worker and its rings after an operation. -/
def apply (o : DrainOptions) (d : Drain ρ ι) : Op → Drain ρ ι
  | .push id rs => d.push id rs
  | .skip id bytes => d.skip id bytes
  | .pass => (d.pass o).2
  | .report samplePeriod cpuPermil => d.report samplePeriod cpuPermil

/-- The visits of the ring at a place in the course of some operations, one for each pass. -/
def visitsAt (o : DrainOptions) (k : Nat) : Drain ρ ι → List Op → List (Ring × RingBuffer)
  | _, [] => []
  | d, op :: ops =>
    let now := match op with
      | .pass => (visits o d.rings d.store)[k]?.toList
      | _ => []
    now ++ visitsAt o k (d.apply o op) ops

theorem rings_apply {o : DrainOptions} {d : Drain ρ ι} {op : Op} (h : op ≠ .pass) :
    (d.apply o op).rings = d.rings := by
  cases op with
  | pass => exact absurd rfl h
  | push | skip | report => rfl

theorem rings_pass (o : DrainOptions) (d : Drain ρ ι) :
    (d.apply o .pass).rings =
      (visits o d.rings d.store).map fun v => v.1.leave (v.1.visit o v.2) :=
  visitAll_rings ..

/-- No operation changes the size of a ring. -/
theorem size_apply (o : DrainOptions) (d : Drain ρ ι) (op : Op) (id : RingId) :
    ((d.apply o op).buffer id).cursor.size = (d.buffer id).cursor.size := by
  cases op with
  | push id' rs =>
      rw [apply, buffer_push]
      split
      · rename_i heq
        rw [heq]
        rfl
      · rfl
  | skip id' bytes =>
      rw [apply, buffer_skip]
      split
      · rename_i heq
        rw [heq]
        rfl
      · rfl
  | pass => exact size_visitAll ..
  | report => rfl

end Run

end Drain

end AccessSampling
