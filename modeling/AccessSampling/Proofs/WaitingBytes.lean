import AccessSampling.Proofs.DrainHistory

/-!
# Waiting bytes

As long as every push brings the bytes of its records and nothing else, the bytes that wait in a
ring are those of its queue. Positions are words, so the two agree up to whole words; in a ring
whose queue is shorter than a word can tell, they agree exactly, and it looks empty only if it is.
-/

namespace AccessSampling

/-! ## One ring -/

namespace RingBuffer

/-- The waiting bytes are those of the queued records, counted in words as the positions are. -/
def IsTight (b : RingBuffer) : Prop := b.cursor.pending = UInt64.ofNat b.queuedBytes

/-- The waiting bytes are exactly those of the queued records. -/
def IsExact (b : RingBuffer) : Prop := b.cursor.pending.toNat = b.queuedBytes

instance (b : RingBuffer) : Decidable b.IsExact := inferInstanceAs (Decidable (_ = _))

theorem queuedBytes_cons (c : Cursor) (r : Record) (q : List Record) :
    queuedBytes ⟨c, r :: q⟩ = r.size + queuedBytes ⟨c.consume r.size, q⟩ := rfl

theorem queuedBytes_eq_sum (b : RingBuffer) : b.queuedBytes = (b.queue.map Record.size).sum := rfl

theorem IsTight.toNat_pending {b : RingBuffer} (h : b.IsTight) :
    b.cursor.pending.toNat = b.queuedBytes % 2 ^ 64 := by
  rw [h, UInt64.toNat_ofNat']

theorem isExact_iff {b : RingBuffer} : b.IsExact ↔ b.IsTight ∧ b.queuedBytes < 2 ^ 64 := by
  constructor
  · intro h
    have hlt := b.cursor.pending.toNat_lt
    rw [IsExact] at h
    refine ⟨UInt64.toNat_inj.1 ?_, by omega⟩
    rw [UInt64.toNat_ofNat', h, Nat.mod_eq_of_lt (by omega)]
  · rintro ⟨htight, hlt⟩
    rw [IsExact, htight.toNat_pending, Nat.mod_eq_of_lt hlt]

/-- An exact ring that holds a record does not look empty. -/
theorem IsExact.not_isEmpty {b : RingBuffer} (h : b.IsExact) (hq : b.queue ≠ []) :
    ¬ b.cursor.isEmpty = true := by
  obtain ⟨r, rest, hcons⟩ := List.exists_cons_of_ne_nil hq
  have hpos := r.size_pos
  have hbytes : b.queuedBytes = r.size + (rest.map Record.size).sum := by
    rw [queuedBytes_eq_sum, hcons, List.map_cons, List.sum_cons]
  rw [Cursor.isEmpty_iff, h]
  omega

theorem IsTight.push {b : RingBuffer} (h : b.IsTight) (rs : List Record) : (b.push rs).IsTight := by
  have hbytes : (b.push rs).queuedBytes =
      b.queuedBytes + (rs.map Record.size).foldr (· + ·) 0 := by
    rw [queuedBytes_eq_sum, queuedBytes_eq_sum, RingBuffer.push, List.map_append, List.sum_append]
    rfl
  rw [IsTight, hbytes, UInt64.ofNat_add, ← h]
  simp only [RingBuffer.push, Cursor.produce, Cursor.pending]
  grind

/-- The tail moves past the record that is taken. -/
theorem IsTight.tail {c : Cursor} {r : Record} {rest : List Record} (h : IsTight ⟨c, r :: rest⟩) :
    IsTight ⟨c.consume r.size, rest⟩ := by
  rw [IsTight, queuedBytes_cons, UInt64.ofNat_add] at h
  simp only [IsTight, Cursor.consume, Cursor.pending] at h ⊢
  grind

theorem IsExact.tail {c : Cursor} {r : Record} {rest : List Record} (h : IsExact ⟨c, r :: rest⟩) :
    IsExact ⟨c.consume r.size, rest⟩ := by
  rw [isExact_iff, queuedBytes_cons] at h
  exact isExact_iff.2 ⟨h.1.tail, Nat.lt_of_le_of_lt (Nat.le_add_left ..) h.2⟩

/-- A visit moves the tail past the records that it takes. -/
theorem isTight_run {o : DrainOptions} {c : Cursor} {b : Backpressure} {q : List Record}
    (h : IsTight ⟨c, q⟩) : (Visit.run o c b q).buffer.IsTight :=
  Visit.run_induction (fun _ _ _ => IsTight.tail) h

theorem isExact_run {o : DrainOptions} {c : Cursor} {b : Backpressure} {q : List Record}
    (h : IsExact ⟨c, q⟩) : (Visit.run o c b q).buffer.IsExact :=
  Visit.run_induction (fun _ _ _ => IsExact.tail) h

end RingBuffer

/-- A visit of an exact ring that holds a record takes one. -/
theorem Visit.taken_ne_nil {o : DrainOptions} {c : Cursor} {b : Backpressure} {q : List Record}
    (h : RingBuffer.IsExact ⟨c, q⟩) (hq : q ≠ []) : (Visit.run o c b q).taken ≠ [] := by
  obtain ⟨r, rest, rfl⟩ := List.exists_cons_of_ne_nil hq
  have hempty := h.not_isEmpty hq
  by_cases hdraining : (b.update c o.highWatermark o.lowWatermark).draining = true
  · rw [run_cons_of_draining hempty hdraining]
    exact List.cons_ne_nil _ _
  · rw [run_cons_of_calm hempty hdraining]
    exact List.cons_ne_nil _ _

/-! ## The rings of a worker -/

namespace Drain

variable {ρ ι : Type} [Resolver ρ ι] [DecidableEq ι] {id : RingId}

theorem isTight_visitAll (o : DrainOptions) (rs : List Ring) {s : RingStore} (i : Intake ρ ι)
    (h : (s.get id).IsTight) : ((visitAll o rs s i).2.2.1.get id).IsTight :=
  visitAll_induction (fun _ _ => RingBuffer.isTight_run) rs i h

theorem isTight_apply {o : DrainOptions} {d : Drain ρ ι} {op : Op}
    (hop : ∀ bytes, op ≠ .skip id bytes) (h : (d.buffer id).IsTight) :
    ((d.apply o op).buffer id).IsTight := by
  cases op with
  | push id' rs =>
      rw [apply, buffer_push]
      split
      · rename_i heq
        rw [heq] at h
        exact h.push rs
      · exact h
  | skip id' bytes =>
      rw [apply, buffer_skip, if_neg ?_]
      · exact h
      · rintro rfl
        exact hop bytes rfl
  | pass => exact isTight_visitAll o d.rings d.intake h
  | report => exact h

/-- As long as a ring gets no bytes without records, it stays tight. -/
theorem isTight_run {o : DrainOptions} {d : Drain ρ ι} {ops : List Op}
    (hops : ∀ bytes, Op.skip id bytes ∉ ops) (h : (d.buffer id).IsTight) :
    ((d.run o ops).buffer id).IsTight := by
  induction ops generalizing d with
  | nil => exact h
  | cons op ops ih =>
      refine ih (fun bytes hmem => hops bytes (List.mem_cons_of_mem _ hmem)) ?_
      exact isTight_apply (fun bytes heq => hops bytes (heq ▸ List.mem_cons_self)) h

/-- A pass takes whole records away, so an exact ring stays exact. -/
theorem isExact_pass {d : Drain ρ ι} (o : DrainOptions) (h : (d.buffer id).IsExact) :
    ((d.apply o .pass).buffer id).IsExact :=
  visitAll_induction (fun _ _ => RingBuffer.isExact_run) d.rings d.intake h

end Drain

end AccessSampling
