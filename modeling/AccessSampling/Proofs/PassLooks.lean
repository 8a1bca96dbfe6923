import AccessSampling.Proofs.DrainHistory
import AccessSampling.Proofs.Rounds
import Mathlib.Algebra.Order.BigOperators.Group.List
import Mathlib.Algebra.Order.Ring.Nat

/-!
# A pass, look by look

The worker goes through its rings in a loop without a counter: it looks at a ring, takes a record if
there is one, and either looks at the same ring again or goes on to the next. Every look takes a
record or leaves a ring behind, so a pass is over after at most as many looks as there are queued
records and rings, whatever positions, pressures and watermarks say. What it has come to then is
what the pass over whole visits says.
-/

namespace AccessSampling

/-- The ring after a look has decided about its pressure. -/
def Ring.press (r : Ring) (p : Backpressure) : Ring := { r with pressure := p }

namespace Drain

/-- The records that are queued in some rings. -/
def queuedIn (s : RingStore) (rs : List Ring) : Nat :=
  (rs.map fun r => (s.get r.id).queue.length).sum

theorem queuedIn_cons (s : RingStore) (r : Ring) (rs : List Ring) :
    queuedIn s (r :: rs) = (s.get r.id).queue.length + queuedIn s rs := rfl

/-- A shorter queue in place of another one. -/
theorem queuedIn_set_le {s : RingStore} {id : RingId} {b : RingBuffer} (rs : List Ring)
    (h : b.queue.length ≤ (s.get id).queue.length) : queuedIn (s.set id b) rs ≤ queuedIn s rs := by
  refine List.sum_le_sum fun r _ => ?_
  rw [Table.get_set]
  split
  · rename_i heq
    rw [heq]
    exact h
  · exact Nat.le_refl _

/-- A pass under way. -/
structure Underway (ρ ι : Type) where
  total : Pass := {}
  /-- The rings whose visit is over. -/
  behind : List Ring := []
  /-- The rings without those whose visit is over. The visit of the first one may have begun. -/
  ahead : List Ring
  store : RingStore
  intake : Intake ρ ι

namespace Underway

variable {ρ ι : Type}

/-- The pass before its first look. -/
def start (d : Drain ρ ι) : Underway ρ ι :=
  { ahead := d.rings, store := d.store, intake := d.intake }

/-- What the pass has counted, and the worker as the pass has left it. -/
def result (u : Underway ρ ι) : Pass × Drain ρ ι :=
  (u.total, { store := u.store, rings := u.behind ++ u.ahead, intake := u.intake })

/-- How many looks are left at most: one for each record in a ring ahead and one for each ring. -/
def looksLeft (u : Underway ρ ι) : Nat := queuedIn u.store u.ahead + u.ahead.length

theorem looksLeft_start (d : Drain ρ ι) : (start d).looksLeft = d.queued + d.rings.length := rfl

variable [Resolver ρ ι] [DecidableEq ι]

/-- Looks at the first ring ahead, if there is one. -/
def look (o : DrainOptions) (u : Underway ρ ι) : Option (Underway ρ ι) :=
  match u.ahead with
  | [] => none
  | r :: rest =>
    let b := u.store.get r.id
    if b.cursor.isEmpty then
      some { u with
        total := { u.total with empty := u.total.empty + 1 }
        behind := u.behind ++ [r]
        ahead := rest
        store := u.store.set r.id b
        intake := u.intake.countSkip }
    else
      let r := r.press (r.pressure.update b.cursor o.highWatermark o.lowWatermark)
      match b.pop with
      -- the bytes that wait hold no record
      | (none, b) =>
        some { u with behind := u.behind ++ [r], ahead := rest, store := u.store.set r.id b }
      | (some record, b) =>
        let u := { u with
          total := { u.total with records := u.total.records + 1 }
          store := u.store.set r.id b
          intake := u.intake.consume o.milestone r.cls record }
        -- in tight-loop mode the ring is looked at again
        if r.pressure.draining then some { u with ahead := r :: rest }
        else some { u with behind := u.behind ++ [r], ahead := rest }

/-- The pass after some more looks, or after fewer if no ring is ahead. -/
def advance (o : DrainOptions) : Nat → Underway ρ ι → Underway ρ ι
  | 0, u => u
  | n + 1, u =>
    match u.look o with
    | none => u
    | some u => advance o n u

/-- What the pass comes to if the rest of it goes by whole visits. -/
def finish (o : DrainOptions) (u : Underway ρ ι) : Pass × Drain ρ ι :=
  let (p, rings, store, intake) := visitAll o u.ahead u.store u.intake
  ({ records := u.total.records + p.records, empty := u.total.empty + p.empty },
    { store, rings := u.behind ++ rings, intake })

theorem finish_start (o : DrainOptions) (d : Drain ρ ι) : (start d).finish o = d.pass o := by
  simp only [finish, start, pass, Nat.zero_add, List.nil_append]

/-! ## What one look does -/

/-- The pass after the visit of the first ring ahead. -/
def afterVisit (o : DrainOptions) (u : Underway ρ ι) (r : Ring) (rest : List Ring) (v : Visit) :
    Underway ρ ι where
  total :=
    { records := u.total.records + v.taken.length
      empty := u.total.empty + countIf (v.foundEmpty = true) }
  behind := u.behind ++ [r.leave v]
  ahead := rest
  store := u.store.set r.id v.buffer
  intake := u.intake.consumeVisit o.milestone r.cls v

/-- The pass after a record of the first ring ahead, which is then looked at again. -/
def afterRecord (o : DrainOptions) (u : Underway ρ ι) (r : Ring) (rest : List Ring)
    (record : Record) (b : RingBuffer) (p : Backpressure) : Underway ρ ι where
  total := { u.total with records := u.total.records + 1 }
  behind := u.behind
  ahead := r.press p :: rest
  store := u.store.set r.id b
  intake := u.intake.consume o.milestone r.cls record

/-- A look ends the visit of the ring, or it takes the first record of a visit whose others are
those of a visit of the ring as the look leaves it. -/
theorem look_cases {o : DrainOptions} {u u' : Underway ρ ι} (h : u.look o = some u') :
    ∃ r rest, u.ahead = r :: rest ∧
      (u' = u.afterVisit o r rest (r.visit o (u.store.get r.id)) ∨
        ∃ record b p, (u.store.get r.id).queue = record :: b.queue ∧
          r.visit o (u.store.get r.id) = ((r.press p).visit o b).cons record ∧
          u' = u.afterRecord o r rest record b p) := by
  obtain ⟨total, behind, ahead, store, intake⟩ := u
  cases ahead with
  | nil => cases h
  | cons r rest =>
      refine ⟨r, rest, rfl, ?_⟩
      simp only [look] at h
      rw [Ring.visit]
      rcases hb : store.get r.id with ⟨c, q⟩
      rw [hb] at h
      by_cases hempty : c.isEmpty = true
      · rw [if_pos hempty, Option.some.injEq] at h
        rw [Visit.run_of_isEmpty hempty]
        exact .inl h.symm
      · rw [if_neg hempty] at h
        cases q with
        | nil =>
            simp only [RingBuffer.pop, Option.some.injEq] at h
            rw [Visit.run_nil_of_not_isEmpty hempty]
            exact .inl h.symm
        | cons record q =>
            by_cases hdraining :
                (r.pressure.update c o.highWatermark o.lowWatermark).draining = true
            · rw [Visit.run_cons_of_draining hempty hdraining]
              refine .inr ⟨record, ⟨c.consume record.size, q⟩,
                r.pressure.update c o.highWatermark o.lowWatermark, rfl, rfl, ?_⟩
              exact (Option.some.inj ((if_pos hdraining).symm.trans h)).symm
            · rw [Visit.run_cons_of_calm hempty hdraining]
              exact .inl (Option.some.inj ((if_neg hdraining).symm.trans h)).symm

/-- A look leaves fewer looks. -/
theorem looksLeft_look {o : DrainOptions} {u u' : Underway ρ ι} (h : u.look o = some u') :
    u'.looksLeft < u.looksLeft := by
  obtain ⟨r, rest, hahead, rfl | ⟨record, b, p, hqueue, -, rfl⟩⟩ := look_cases h
  · -- there is one ring less ahead, and the visit has written no record
    have hlen := congrArg List.length (Visit.taken_append_queue o (u.store.get r.id).cursor
      r.pressure (u.store.get r.id).queue)
    rw [List.length_append] at hlen
    have hrest := queuedIn_set_le (b := (r.visit o (u.store.get r.id)).buffer) rest
      (Nat.le.intro ((Nat.add_comm ..).trans hlen))
    rw [looksLeft, looksLeft, hahead, queuedIn_cons, List.length_cons]
    show queuedIn (u.store.set r.id _) rest + rest.length < _
    omega
  · -- as many rings are ahead, but the queue of the first one is shorter
    have hlen : (u.store.get r.id).queue.length = b.queue.length + 1 := by
      rw [hqueue, List.length_cons]
    have hrest : queuedIn (u.store.set r.id b) rest ≤ queuedIn u.store rest :=
      queuedIn_set_le rest (by omega)
    rw [looksLeft, looksLeft, hahead, queuedIn_cons, List.length_cons]
    show ((u.store.set r.id b).get r.id).queue.length + queuedIn (u.store.set r.id b) rest +
      (rest.length + 1) < _
    rw [Table.get_set_self]
    omega

/-- The rest of a pass begins with the visit of the first ring ahead. -/
theorem finish_afterVisit {o : DrainOptions} {u : Underway ρ ι} {r : Ring} {rest : List Ring}
    (h : u.ahead = r :: rest) :
    (u.afterVisit o r rest (r.visit o (u.store.get r.id))).finish o = u.finish o := by
  simp only [finish, h, visitAll, afterVisit, Nat.add_assoc, List.append_assoc,
    List.singleton_append]

/-- A record and the visit that takes the others come to the visit that takes them all. -/
theorem afterVisit_afterRecord (o : DrainOptions) (u : Underway ρ ι) (r : Ring) (rest : List Ring)
    (record : Record) (b : RingBuffer) (p : Backpressure) (v : Visit) :
    (u.afterRecord o r rest record b p).afterVisit o (r.press p) rest v =
      u.afterVisit o r rest (v.cons record) := by
  have hrecords : u.total.records + 1 + v.taken.length =
      u.total.records + (v.taken.length + 1) := by omega
  have hstore : (u.store.set r.id b).set r.id v.buffer = u.store.set r.id v.buffer :=
    Table.set_set ..
  simp only [afterVisit, afterRecord, Ring.press, Visit.cons, List.length_cons]
  rw [hrecords, hstore]
  rfl

/-- A look changes nothing about what the pass comes to. -/
theorem finish_look {o : DrainOptions} {u u' : Underway ρ ι} (h : u.look o = some u') :
    u'.finish o = u.finish o := by
  obtain ⟨r, rest, hahead, rfl | ⟨record, b, p, -, hvisit, rfl⟩⟩ := look_cases h
  · exact finish_afterVisit hahead
  · -- the visit that is under way goes on as one of the ring that the look has left
    have hget : (u.afterRecord o r rest record b p).store.get (r.press p).id = b :=
      Table.get_set_self ..
    rw [← finish_afterVisit hahead, hvisit, ← afterVisit_afterRecord (b := b),
      ← finish_afterVisit (u := u.afterRecord o r rest record b p) rfl, hget]

/-- A pass without a ring ahead is over. -/
theorem look_eq_none_iff {o : DrainOptions} {u : Underway ρ ι} :
    u.look o = none ↔ u.ahead = [] := by
  constructor
  · intro h
    cases hahead : u.ahead with
    | nil => rfl
    | cons r rest =>
        rw [look, hahead] at h
        simp only at h
        split at h
        · cases h
        · split at h
          · cases h
          · split at h <;> cases h
  · intro h
    rw [look, h]

theorem result_of_look_eq_none {o : DrainOptions} {u : Underway ρ ι} (h : u.look o = none) :
    u.result = u.finish o := by
  rw [look_eq_none_iff] at h
  simp only [result, finish, h, visitAll, Nat.add_zero]

/-! ## The whole pass -/

theorem advance_eq_after (o : DrainOptions) (n : Nat) (u : Underway ρ ι) :
    u.advance o n = Rounds.after (look o) n u := by
  induction n generalizing u with
  | zero => rfl
  | succ n ih =>
      rw [advance, Rounds.after]
      cases u.look o with
      | none => rfl
      | some u' => exact ih u'

/-- A pass that is given a look for every record in its rings and one for every ring comes to an
end, at what it comes to by whole visits. -/
theorem advance_of_looksLeft_le {o : DrainOptions} {n : Nat} {u : Underway ρ ι}
    (h : u.looksLeft ≤ n) :
    (u.advance o n).look o = none ∧ (u.advance o n).result = u.finish o := by
  rw [advance_eq_after]
  have hover : (Rounds.after (look o) n u).look o = none := Rounds.over_after looksLeft_look h
  have hfinish : (Rounds.after (look o) n u).finish o = u.finish o :=
    Rounds.after_keeps (P := fun u' => u'.finish o = u.finish o)
      (fun h => (finish_look h).trans) rfl n
  exact ⟨hover, (result_of_look_eq_none hover).trans hfinish⟩

end Underway

end Drain

end AccessSampling
