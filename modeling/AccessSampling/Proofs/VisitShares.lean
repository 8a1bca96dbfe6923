import AccessSampling.Proofs.Emptying
import AccessSampling.Proofs.Hysteresis
import AccessSampling.Proofs.PassLooks

/-!
# What a visit takes

If all bytes that wait in a ring belong to queued records, then how many of the records a visit
takes follows from the queue, the size of the ring, the watermarks and the mode in which the last
look has left the ring. In tight-loop mode, or above the high watermark, it is the shortest prefix
whose last record was taken at a fill below the low watermark, or the whole queue; otherwise it is
one record.
-/

namespace AccessSampling

/-! ## Shares -/

/-- The bytes of some records. -/
def bytesOf (q : List Record) : Nat := (q.map Record.size).sum

theorem bytesOf_cons (r : Record) (q : List Record) : bytesOf (r :: q) = r.size + bytesOf q :=
  List.sum_cons

/-- The bytes that wait each time a record of a queue is taken. -/
def fills : List Record → List Nat
  | [] => []
  | r :: rest => bytesOf (r :: rest) :: fills rest

namespace DrainOptions

variable {o : DrainOptions} {size : Nat}

/-- The length of the shortest prefix of a queue whose last record is taken at a fill below the low
watermark, or of the whole queue if it has no such prefix. -/
def untilBelow (o : DrainOptions) (size : Nat) (q : List Record) : Nat :=
  match (fills q).findIdx? (o.isBelow size) with
  | some k => k + 1
  | none => q.length

/-- How many records of a queue a visit takes from a ring that is or is not in tight-loop mode. -/
def share (o : DrainOptions) (size : Nat) (draining : Bool) (q : List Record) : Nat :=
  if q = [] then 0
  else if draining || o.isAbove size (bytesOf q) then o.untilBelow size q
  else 1

theorem untilBelow_cons (o : DrainOptions) (size : Nat) (r : Record) (q : List Record) :
    o.untilBelow size (r :: q) =
      if o.isBelow size (bytesOf (r :: q)) then 1 else o.untilBelow size q + 1 := by
  rw [untilBelow, untilBelow, fills, List.findIdx?_cons]
  by_cases hbelow : o.isBelow size (bytesOf (r :: q)) = true
  · rw [if_pos hbelow, if_pos hbelow]
  · rw [if_neg hbelow, if_neg hbelow]
    cases (fills q).findIdx? (o.isBelow size) <;> rfl

/-- In tight-loop mode an empty queue is no case of its own. -/
theorem share_true (o : DrainOptions) (size : Nat) (q : List Record) :
    o.share size true q = o.untilBelow size q := by
  cases q with
  | nil => rfl
  | cons r q => rfl

/-- The share of a ring that holds something ends with the first record if the look before it leaves
the ring out of tight-loop mode, and otherwise goes on until the fill is below the low watermark. -/
theorem share_cons (hmarks : o.lowWatermark ≤ o.highWatermark) (draining : Bool) (r : Record)
    (q : List Record) :
    o.share size draining (r :: q) =
      if (if o.isAbove size (bytesOf (r :: q)) then true
        else if o.isBelow size (bytesOf (r :: q)) then false
        else draining) = true
      then o.untilBelow size q + 1
      else 1 := by
  rw [share, if_neg (List.cons_ne_nil r q), untilBelow_cons]
  cases habove : o.isAbove size (bytesOf (r :: q)) with
  | true => simp [isBelow_of_isAbove hmarks habove]
  | false => cases o.isBelow size (bytesOf (r :: q)) <;> simp

/-- Without its prefix that ends below the low watermark, a queue is empty or below it. -/
theorem drop_untilBelow (o : DrainOptions) (size : Nat) (q : List Record) :
    q.drop (o.untilBelow size q) = [] ∨
      o.isBelow size (bytesOf (q.drop (o.untilBelow size q))) = true := by
  induction q with
  | nil => exact .inl rfl
  | cons r q ih =>
      rw [untilBelow_cons]
      split
      · rename_i hbelow
        rw [bytesOf_cons] at hbelow
        exact .inr (isBelow_mono (Nat.le_add_left ..) hbelow)
      · rw [List.drop_succ_cons]
        exact ih

end DrainOptions

/-! ## One visit -/

namespace Visit

variable {o : DrainOptions} {c : Cursor} {b : Backpressure} {q : List Record}

/-- A visit takes the share of the ring. -/
theorem taken_eq_take (hmarks : o.lowWatermark ≤ o.highWatermark)
    (h : RingBuffer.IsExact ⟨c, q⟩) :
    (run o c b q).taken = q.take (o.share c.size.toNat b.draining q) := by
  induction q generalizing c b with
  | nil =>
      unfold run
      split <;> rfl
  | cons r rest ih =>
      have hfill : c.pending.toNat = bytesOf (r :: rest) := h
      have hempty : ¬ c.isEmpty = true := h.not_isEmpty (List.cons_ne_nil r rest)
      have hupdate := b.draining_update c o
      rw [hfill] at hupdate
      rw [DrainOptions.share_cons hmarks, ← hupdate]
      by_cases hdraining : (b.update c o.highWatermark o.lowWatermark).draining = true
      · -- the rest of the visit starts in tight-loop mode, above the high watermark or not
        have hrest := ih (b := b.update c o.highWatermark o.lowWatermark) h.tail
        rw [hdraining, DrainOptions.share_true] at hrest
        rw [run_cons_of_draining hempty hdraining, if_pos hdraining, List.take_succ_cons]
        exact congrArg (r :: ·) hrest
      · rw [run_cons_of_calm hempty hdraining, if_neg hdraining]
        rfl

/-- It leaves the rest. -/
theorem queue_eq_drop (hmarks : o.lowWatermark ≤ o.highWatermark)
    (h : RingBuffer.IsExact ⟨c, q⟩) :
    (run o c b q).buffer.queue = q.drop (o.share c.size.toNat b.draining q) := by
  have hall := taken_append_queue o c b q
  rw [taken_eq_take hmarks h] at hall
  exact List.append_cancel_left (hall.trans (List.take_append_drop _ q).symm)

end Visit

/-! ## Rings that were drained -/

namespace RingBuffer

/-- The ring is empty or below the low watermark. -/
def IsDrained (o : DrainOptions) (b : RingBuffer) : Prop :=
  b.queue = [] ∨ o.isBelow b.cursor.size.toNat (bytesOf b.queue) = true

variable {o : DrainOptions} {c : Cursor} {b : Backpressure} {q : List Record}

/-- A visit only takes records away. -/
theorem isDrained_run (h : IsDrained o ⟨c, q⟩) : (Visit.run o c b q).buffer.IsDrained o := by
  refine Visit.run_induction (P := IsDrained o) (fun c r rest hring => ?_) h
  obtain hring | hring := hring
  · cases hring
  · rw [bytesOf_cons] at hring
    exact .inr (DrainOptions.isBelow_mono (Nat.le_add_left ..) hring)

/-- A visit drains a ring that it finds above the high watermark. -/
theorem isDrained_run_of_isAbove (hmarks : o.lowWatermark ≤ o.highWatermark)
    (h : IsExact ⟨c, q⟩) (habove : o.isAbove c.size.toNat (bytesOf q) = true) :
    (Visit.run o c b q).buffer.IsDrained o := by
  rw [IsDrained, Drain.size_run, Visit.queue_eq_drop hmarks h, DrainOptions.share]
  split
  · rename_i hnil
    rw [hnil]
    exact .inl rfl
  · rw [habove, Bool.or_true, if_pos rfl]
    exact o.drop_untilBelow c.size.toNat q

end RingBuffer

/-! ## The rings of a pass -/

namespace Drain

/-- A visit of a pass finds a ring exact that is exact before the pass. -/
theorem isExact_of_mem_visits {o : DrainOptions} {rs : List Ring} {s : RingStore}
    {v : Ring × RingBuffer} (hv : v ∈ visits o rs s) (h : (s.get v.1.id).IsExact) :
    v.2.IsExact := by
  induction rs generalizing s with
  | nil => cases hv
  | cons r rs ih =>
      rw [visits, List.mem_cons] at hv
      obtain rfl | hv := hv
      · exact h
      · exact ih hv (set_visit_induction (fun _ _ => RingBuffer.isExact_run) r h)

variable {ρ ι : Type} [Resolver ρ ι] [DecidableEq ι] {o : DrainOptions}

/-- A pass drains every ring that it finds above the high watermark. -/
theorem isDrained_visitAll (hmarks : o.lowWatermark ≤ o.highWatermark) {rs : List Ring}
    {s : RingStore} (i : Intake ρ ι) {id : RingId} (hid : id ∈ rs.map Ring.id)
    (h : (s.get id).IsExact)
    (habove : o.isAbove (s.get id).cursor.size.toNat (bytesOf (s.get id).queue) = true) :
    ((visitAll o rs s i).2.2.1.get id).IsDrained o := by
  induction rs generalizing s i with
  | nil => cases hid
  | cons r rs ih =>
      by_cases heq : id = r.id
      · -- the first visit drains the ring, and no later one fills it
        subst heq
        refine visitAll_induction (fun _ _ => RingBuffer.isDrained_run) rs _ ?_
        rw [Table.get_set_self]
        exact RingBuffer.isDrained_run_of_isAbove hmarks h habove
      · have hsame : (s.set r.id (r.visit o (s.get r.id)).buffer).get id = s.get id :=
          s.get_set_of_ne heq _
        rw [List.map_cons, List.mem_cons] at hid
        exact ih _ (hid.resolve_left heq) (by rwa [hsame]) (by rwa [hsame])

/-- A pass does not touch other rings than its own. -/
theorem get_visitAll_of_not_mem {rs : List Ring} {s : RingStore} (i : Intake ρ ι) {id : RingId}
    (h : id ∉ rs.map Ring.id) : (visitAll o rs s i).2.2.1.get id = s.get id := by
  induction rs generalizing s i with
  | nil => rfl
  | cons r rs ih =>
      rw [List.map_cons, List.mem_cons, not_or] at h
      exact (ih _ h.2).trans (s.get_set_of_ne h.1 _)

/-- If only one entry of the worker is for a ring, then its visit leaves what the pass leaves. -/
theorem get_visitAll_of_count {rs : List Ring} {s : RingStore} (i : Intake ρ ι) {r : Ring}
    (hr : r ∈ rs) (hone : (rs.map Ring.id).count r.id = 1) :
    (visitAll o rs s i).2.2.1.get r.id = (r.visit o (s.get r.id)).buffer := by
  induction rs generalizing s i with
  | nil => cases hr
  | cons r' rs ih =>
      rw [List.map_cons, List.count_cons] at hone
      by_cases heq : r'.id = r.id
      · -- the first entry is the only one for the ring
        rw [if_pos (beq_iff_eq.2 heq), Nat.succ_inj, List.count_eq_zero] at hone
        obtain rfl | hmem := List.mem_cons.1 hr
        · exact (get_visitAll_of_not_mem _ hone).trans (s.get_set_self ..)
        · exact absurd (List.mem_map_of_mem hmem) hone
      · -- the first entry is for another ring and leaves this one alone
        rw [if_neg (mt beq_iff_eq.1 heq)] at hone
        have hmem : r ∈ rs := (List.mem_cons.1 hr).resolve_left fun h => heq (h ▸ rfl)
        have hsame : (s.set r'.id (r'.visit o (s.get r'.id)).buffer).get r.id = s.get r.id :=
          s.get_set_of_ne (Ne.symm heq) _
        exact (ih _ hmem hone).trans (congrArg (fun b => (r.visit o b).buffer) hsame)

/-- What a pass takes from a ring with one entry, and what it leaves, is a share of its queue. -/
theorem popped_of_count (hmarks : o.lowWatermark ≤ o.highWatermark) {d : Drain ρ ι} {r : Ring}
    (hr : r ∈ d.rings) (hone : (d.rings.map Ring.id).count r.id = 1)
    (h : (d.buffer r.id).IsExact) :
    let b := d.buffer r.id
    let n := o.share b.cursor.size.toNat r.pressure.draining b.queue
    popped r.id (d.eventsOf o .pass) = b.queue.take n ∧
      ((d.pass o).2.buffer r.id).queue = b.queue.drop n := by
  intro b n
  have hleft : ((d.pass o).2.buffer r.id).queue = b.queue.drop n :=
    (congrArg RingBuffer.queue (get_visitAll_of_count d.intake hr hone)).trans
      (Visit.queue_eq_drop hmarks h)
  have hall := d.queue_apply o .pass r.id
  rw [Op.recordsFor, List.append_nil, ← List.take_append_drop n (d.buffer r.id).queue] at hall
  exact ⟨List.append_cancel_right (hall.trans (congrArg _ hleft.symm)), hleft⟩

/-- A pass ends after at most as many looks as there are queued records and rings. Each visit of an
exact ring takes a share of what it finds, and this is a share of the queue before the pass if no
other entry of the worker is for the ring; it is at least one record of a queue that is not empty,
and a ring that the pass finds above the high watermark it leaves empty or below the low one. If all
rings are exact, then passes until one consumes nothing empty them, and there are at most as many
others as the longest queue has records. -/
theorem pass_shares (hmarks : o.lowWatermark ≤ o.highWatermark) (d : Drain ρ ι) :
    (∀ n, d.queued + d.rings.length ≤ n →
      let u := (Underway.start d).advance o n
      u.look o = none ∧ u.result = d.pass o) ∧
    (∀ v ∈ visits o d.rings d.store, (d.buffer v.1.id).IsExact →
      let n := o.share v.2.cursor.size.toNat v.1.pressure.draining v.2.queue
      (v.1.visit o v.2).taken = v.2.queue.take n ∧
        (v.1.visit o v.2).buffer.queue = v.2.queue.drop n) ∧
    (∀ r ∈ d.rings, (d.buffer r.id).IsExact →
      let b := d.buffer r.id
      let b' := (d.pass o).2.buffer r.id
      let n := o.share b.cursor.size.toNat r.pressure.draining b.queue
      ((d.rings.map Ring.id).count r.id = 1 →
        popped r.id (d.eventsOf o .pass) = b.queue.take n ∧ b'.queue = b.queue.drop n) ∧
      (b.queue ≠ [] → popped r.id (d.eventsOf o .pass) ≠ []) ∧
      (o.isAbove b.cursor.size.toNat b.cursor.pending.toNat = true →
        b'.queue = [] ∨ o.isBelow b'.cursor.size.toNat b'.cursor.pending.toNat = true)) ∧
    ((∀ r ∈ d.rings, (d.buffer r.id).IsExact) → ∀ n, d.longest < n →
      (∃ ps p, (passes o n d).1 = ps ++ [p] ∧ p.records = 0 ∧ (∀ q ∈ ps, q.records ≠ 0) ∧
        ps.length ≤ d.longest) ∧
      ∀ r ∈ d.rings, ((passes o n d).2.buffer r.id).queue = []) := by
  refine ⟨fun n hn => ?_, fun v hv h => ?_, fun r hr h => ⟨fun hone => ?_, fun hq => ?_, ?_⟩,
    fun hexact n hn => ?_⟩
  · rw [← Underway.looksLeft_start] at hn
    rw [← Underway.finish_start]
    exact Underway.advance_of_looksLeft_le hn
  · have hfound := isExact_of_mem_visits hv h
    exact ⟨Visit.taken_eq_take hmarks hfound, Visit.queue_eq_drop hmarks hfound⟩
  · exact popped_of_count hmarks hr hone h
  · exact popped_ne_nil (List.mem_map_of_mem hr) h hq
  · -- positions tell the bytes of the queue before the pass and after it
    intro habove
    have hafter : ((d.pass o).2.buffer r.id).IsExact := isExact_pass o h
    rw [h] at habove
    rw [hafter]
    exact isDrained_visitAll hmarks d.intake (List.mem_map_of_mem hr) h habove
  · have hids : ∀ id ∈ d.rings.map Ring.id, (d.buffer id).IsExact := List.forall_mem_map.2 hexact
    obtain ⟨hend, hempty⟩ := passes_longest (o := o) hn hids
    exact ⟨hend, List.forall_mem_map.1 hempty⟩

end Drain

/-! ## A full ring, a calm one and an empty one -/

/-- A ring that is filled to four fifths, one that is not above its high watermark, and an empty
one. -/
def unevenRings : Drain PageDirectory UInt64 :=
  .ofBuffers
    [(0, .dramRead, (RingBuffer.new 200).push
        [.sample ⟨1, ⟨1, 1⟩, 5, 0x1000⟩, .sample ⟨1, ⟨1, 1⟩, 6, 0x1000⟩,
          .sample ⟨1, ⟨1, 1⟩, 7, 0x2000⟩, .sample ⟨1, ⟨1, 1⟩, 9, 0x1000⟩]),
      (1, .nvmRead, (RingBuffer.new 200).push [.lostSamples 3, .other 7]),
      (2, .memWrite, RingBuffer.new 200)]
    { resolver := {}, tally := .empty 4 }

/-- The fills of the first ring are 160, 120 and 80, and only the last of them is below 90. -/
theorem Drain.shares_of_uneven_rings :
    let o : DrainOptions := { lowWatermark := 45 }
    let taken (n : Nat) := popped (.detached n) (unevenRings.eventsOf o .pass)
    let after (n : Nat) := ((unevenRings.pass o).2.buffer (.detached n)).queue
    (o.lowWatermark ≤ o.highWatermark ∧
      ∀ r ∈ unevenRings.rings, (unevenRings.buffer r.id).IsExact) ∧
    (((Underway.start unevenRings).advance o 9).result = unevenRings.pass o) ∧
    (taken 0).length = 3 ∧ after 0 = [.sample ⟨1, ⟨1, 1⟩, 9, 0x1000⟩] ∧
    taken 1 = [.lostSamples 3] ∧ after 1 = [.other 7] ∧
    taken 2 = [] ∧
    ∃ ps p, (passes o 5 unevenRings).1 = ps ++ [p] ∧ p.records = 0 ∧ ps.length ≤ 4 := by
  intro o taken after
  have hmarks : o.lowWatermark ≤ o.highWatermark := by decide
  have hexact : ∀ r ∈ unevenRings.rings, (unevenRings.buffer r.id).IsExact := by decide
  obtain ⟨hlooks, -, hrings, hpasses⟩ := Drain.pass_shares hmarks unevenRings
  have hshare (n : Nat) (c : EventClass) (hr : ⟨n, c, .detached n, {}⟩ ∈ unevenRings.rings) :=
    (hrings _ hr (hexact _ hr)).1
  obtain ⟨⟨ps, p, hps, hp, -, hlen⟩, -⟩ := hpasses hexact 5 (by decide)
  obtain ⟨htaken₀, hafter₀⟩ := hshare 0 .dramRead (by decide) (by decide)
  obtain ⟨htaken₁, hafter₁⟩ := hshare 1 .nvmRead (by decide) (by decide)
  obtain ⟨htaken₂, -⟩ := hshare 2 .memWrite (by decide) (by decide)
  refine ⟨⟨hmarks, hexact⟩, (hlooks 9 (by decide)).2, ?_, ?_, ?_, ?_, ?_, ps, p, hps, hp, hlen⟩
  · exact (congrArg List.length htaken₀).trans (by decide)
  · exact hafter₀.trans (by decide)
  · exact htaken₁.trans (by decide)
  · exact hafter₁.trans (by decide)
  · exact htaken₂.trans (by decide)

end AccessSampling
